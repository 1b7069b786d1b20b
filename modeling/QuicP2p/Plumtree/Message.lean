import QuicP2p.Stop

/-! Time, messages, actions and options of a Plumtree node. -/

namespace QuicP2p.Plumtree

/-- A duration in nanoseconds, with no bound. A sum beyond `Duration::MAX` panics in the program,
whose run ends there: the runs up to such a panic are among those of the model. -/
abbrev Duration := ℕ

def Duration.fromMillis (millis : ℕ) : Duration := millis * 1000000

abbrev NodeTime := WithTop ℕ

structure Clock where
  time : NodeTime
  deriving DecidableEq

namespace Clock

def new : Clock := ⟨0⟩

def now (c : Clock) : NodeTime := c.time

def tick (c : Clock) (duration : Duration) : Clock := ⟨c.time + duration⟩

def max : Clock := ⟨⊤⟩

end Clock

/-- Hop counts are sixteen bits wide. -/
abbrev Round := UInt16

def Round.saturatingAdd (a b : Round) : Round :=
  if a.toNat + b.toNat < 65536 then a + b else 65535

def Round.checkedSub (a b : Round) : Option Round := if b ≤ a then some (a - b) else none

@[ext]
structure Message (I P : Type) where
  id : I
  payload : P
  deriving DecidableEq

structure GossipMessage (N I P : Type) where
  sender : N
  message : Message I P
  round : Round
  deriving DecidableEq

structure IhaveMessage (N I : Type) where
  sender : N
  messageId : I
  round : Round
  realtime : Bool
  deriving DecidableEq

structure GraftMessage (N I : Type) where
  sender : N
  messageId : Option I
  round : Round
  deriving DecidableEq

structure PruneMessage (N : Type) where
  sender : N
  deriving DecidableEq

inductive ProtocolMessage (N I P : Type)
  | gossip (m : GossipMessage N I P)
  | ihave (m : IhaveMessage N I)
  | graft (m : GraftMessage N I)
  | prune (m : PruneMessage N)
  deriving DecidableEq

def ProtocolMessage.sender {N I P : Type} : ProtocolMessage N I P → N
  | .gossip m => m.sender
  | .ihave m => m.sender
  | .graft m => m.sender
  | .prune m => m.sender

inductive Action (N I P : Type)
  | send (destination : N) (message : ProtocolMessage N I P)
  | deliver (message : Message I P)
  deriving DecidableEq

structure NodeOptions where
  ihaveTimeout : Duration := .fromMillis 500
  optimizationThreshold : Round := 2
  deriving DecidableEq

end QuicP2p.Plumtree
