import QuicP2p.Hyparview.Operations
import QuicP2p.Plumtree.Handlers

/-! Identifiers, messages and parameters of a peer-to-peer node. -/

namespace QuicP2p.P2p

open Library

/-- The name of a node: its public key, with the addresses at which it listens. -/
structure NodeId (K A : Type) where
  addresses : List A
  localId : K
  deriving DecidableEq

structure MessageId (K A : Type) where
  node : NodeId K A
  seqno : ℕ
  timestamp : ℕ
  deriving DecidableEq

abbrev HyparviewNode (K A R : Type) := Hyparview.Node (NodeId K A) R

abbrev HyparviewMessage (K A : Type) := Hyparview.ProtocolMessage (NodeId K A)

abbrev HyparviewAction (K A : Type) := Hyparview.Action (NodeId K A)

abbrev PlumtreeNode (K A M : Type) := Plumtree.Node (NodeId K A) (MessageId K A) M

abbrev PlumtreeMessage (K A M : Type) := Plumtree.ProtocolMessage (NodeId K A) (MessageId K A) M

abbrev PlumtreeAction (K A M : Type) := Plumtree.Action (NodeId K A) (MessageId K A) M

abbrev PlumtreeAppMessage (K A M : Type) := Plumtree.Message (MessageId K A) M

inductive PlumtreeStreamMessage (K A M : Type)
  | begin
  | message (m : PlumtreeMessage K A M)
  | «end»
  deriving DecidableEq

inductive P2pNodeProtocolMessage (K A M : Type)
  | hyparview (m : HyparviewMessage K A)
  | plumtree (m : PlumtreeMessage K A M)
  | plumtreeStream (m : PlumtreeStreamMessage K A M)
  deriving DecidableEq

/-- The node that a message names as its sender. -/
def P2pNodeProtocolMessage.sender {K A M : Type} :
    P2pNodeProtocolMessage K A M → Option (NodeId K A)
  | .hyparview m => some m.sender
  | .plumtree m => some m.sender
  | .plumtreeStream _ => none

/-- The calls that a node makes on the handle of its server. -/
inductive ServerCall (K A M : Type)
  | sendProtocolMessageSync (destination : NodeId K A) (message : P2pNodeProtocolMessage K A M)
  | sendProtocolMessage (destination : NodeId K A) (message : P2pNodeProtocolMessage K A M)
  | removeRemoteNode (node : K)
  | notifySelfDisconnect (destination : NodeId K A)
  deriving DecidableEq

/-- The milliseconds since the epoch that the system clock shows, unless it is set before it. -/
abbrev WallClock := Option ℕ

/-- A number of milliseconds as a word of 64 bits. -/
def asU64 (millis : ℕ) : ℕ := millis % 2 ^ 64

def WallClock.now (clock : WallClock) : ℕ := asU64 (clock.getD 0)

def maxOutOfOrderDelayMs : ℕ := 1000

def maxProcessedCacheLen : ℕ := 50

def maxCleanupPerCall : ℕ := 5

open Plumtree (Duration NodeTime)

def fromSecs (secs : ℕ) : Duration := .fromMillis (1000 * secs)

structure Parameters where
  tickInterval : Duration := .fromMillis 100
  hyparviewShuffleInterval : Duration := fromSecs 300
  hyparviewSyncActiveViewInterval : Duration := fromSecs 60
  hyparviewFillActiveViewInterval : Duration := fromSecs 30
  deriving DecidableEq

/-- An interval with a jitter of a tenth of it at most, by the number that was drawn. -/
def genInterval (base : Duration) (draw : ℕ) : Exec Duration :=
  let millis := base / 1000000
  if millis / 10 = 0 then .error .divisionByZero
  else .ok (base + .fromMillis (draw % (millis / 10)))

inductive UserType (K : Type)
  | user (localNodeId : K)
  | system
  deriving DecidableEq

/-- The time is in nanoseconds since the epoch. -/
structure ChatMessage (K : Type) where
  time : ℤ
  content : String
  user : UserType K
  deriving DecidableEq

def ChatMessage.getContent {K : Type} (m : ChatMessage K) : String := m.content

end QuicP2p.P2p
