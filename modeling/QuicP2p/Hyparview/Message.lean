import QuicP2p.Stop

/-! Messages, events, actions and options of a HyParView node. -/

namespace QuicP2p.Hyparview

structure TimeToLive where
  val : UInt8
  deriving DecidableEq

namespace TimeToLive

def new (ttl : UInt8) : TimeToLive := ⟨ttl⟩

def asU8 (ttl : TimeToLive) : UInt8 := ttl.val

def isExpired (ttl : TimeToLive) : Bool := ttl.val = 0

def decrement (ttl : TimeToLive) : TimeToLive := ⟨if ttl.val = 0 then 0 else ttl.val - 1⟩

end TimeToLive

structure JoinMessage (T : Type) where
  sender : T
  deriving DecidableEq

structure ForwardJoinMessage (T : Type) where
  sender : T
  newNode : T
  ttl : TimeToLive
  deriving DecidableEq

structure NeighborMessage (T : Type) where
  sender : T
  highPriority : Bool
  deriving DecidableEq

structure ShuffleMessage (T : Type) where
  sender : T
  origin : T
  nodes : List T
  ttl : TimeToLive
  deriving DecidableEq

structure ShuffleReplyMessage (T : Type) where
  sender : T
  nodes : List T
  deriving DecidableEq

structure DisconnectMessage (T : Type) where
  sender : T
  alive : Bool
  deriving DecidableEq

inductive ProtocolMessage (T : Type)
  | join (m : JoinMessage T)
  | forwardJoin (m : ForwardJoinMessage T)
  | neighbor (m : NeighborMessage T)
  | shuffle (m : ShuffleMessage T)
  | shuffleReply (m : ShuffleReplyMessage T)
  | disconnect (m : DisconnectMessage T)
  deriving DecidableEq

def ProtocolMessage.sender {T : Type} : ProtocolMessage T → T
  | .join m => m.sender
  | .forwardJoin m => m.sender
  | .neighbor m => m.sender
  | .shuffle m => m.sender
  | .shuffleReply m => m.sender
  | .disconnect m => m.sender

inductive Event (T : Type)
  | neighborUp (node : T)
  | neighborDown (node : T)
  deriving DecidableEq

inductive Action (T : Type)
  | send (destination : T) (message : ProtocolMessage T)
  | disconnect (node : T)
  | notify (event : Event T)
  deriving DecidableEq

structure NodeOptions where
  maxActiveViewSize : UInt8 := 4
  maxPassiveViewSize : UInt8 := 24
  shuffleActiveViewSize : UInt8 := 2
  shufflePassiveViewSize : UInt8 := 2
  activeRandomWalkLen : UInt8 := 5
  passiveRandomWalkLen : UInt8 := 2
  deriving DecidableEq

end QuicP2p.Hyparview
