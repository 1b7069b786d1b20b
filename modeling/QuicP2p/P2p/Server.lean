import QuicP2p.P2p.Message
import QuicP2p.Library.Runs

/-! The server: whose connection it takes for whose, and what it passes to the local node. -/

namespace QuicP2p.P2p

open Library

variable {K A M : Type}

/-- A connection, with the key that its peer proved to have. -/
structure Connection (K : Type) where
  stableId : ℕ
  peer : K
  deriving DecidableEq

/-- The state of `handle_connection`: the messages whose senders wait for a place in the channel,
the channel, what its receiver has taken from it, whether it is closed, and the name at the end. -/
structure Service (K A M : Type) where
  conn : Connection K
  waiting : List (P2pNodeProtocolMessage K A M)
  nodeIdTx : Option (NodeId K A)
  received : Option (NodeId K A)
  isClosed : Bool
  nodeIdOp : Option (NodeId K A)
  finished : Bool
  deriving DecidableEq

/-- A server with the locks that are held, the connections that it has established and not stored
yet, those it has given out, and what it has queued to the local node, with the connection it came
from. -/
structure ServerHandle (K A M : Type) where
  localNode : Option K
  remoteNodes : HashMap K (Connection K)
  connectionLocks : HashSet K
  services : List (Service K A M)
  dialled : HashMap K (Connection K)
  returned : List (K × Connection K)
  messageTx : List (Option (Connection K) × P2pNodeProtocolMessage K A M)

inductive ServerInput (K A M : Type)
  | registerLocalNode (localId : K)
  | accept (peer : K)
  /-- A sender asks for a connection. -/
  | getConnection (nodeid : NodeId K A)
  | connected (nodeid : NodeId K A)
  | stored (nodeid : NodeId K A)
  | dialFailed (nodeid : NodeId K A)
  | sendFailed (destination : NodeId K A)
  | removeRemoteNode (node : K)
  | receive (service : ℕ) (message : P2pNodeProtocolMessage K A M)
  | announce (service : ℕ)
  | learn (service : ℕ)
  | settle (service : ℕ)
  | finish (service : ℕ)
  deriving DecidableEq

namespace ServerHandle

def new : ServerHandle K A M := ⟨none, .empty, .empty, [], .empty, [], []⟩

/-- Pass a message to the local node, if there is one. -/
def pass (s : ServerHandle K A M) (origin : Option (Connection K))
    (message : P2pNodeProtocolMessage K A M) : ServerHandle K A M :=
  if s.localNode.isSome then { s with messageTx := s.messageTx ++ [(origin, message)] } else s

/-- Start to serve a connection; without a local node the task fails at once. -/
def handleConnection (s : ServerHandle K A M) (conn : Connection K) : ServerHandle K A M :=
  if s.localNode.isSome then
    { s with services := s.services ++ [⟨conn, [], none, none, false, none, false⟩] }
  else s

def nextConnection (s : ServerHandle K A M) (peer : K) : Connection K := ⟨s.services.length, peer⟩

def update (s : ServerHandle K A M) (i : ℕ) (t : Service K A M) : ServerHandle K A M :=
  { s with services := s.services.set i t }

/-- The iteration of `handle_recv_stream` on a message: until the channel is closed, its sender has
to be announced first. -/
def receive (s : ServerHandle K A M) (i : ℕ) (t : Service K A M)
    (message : P2pNodeProtocolMessage K A M) : ServerHandle K A M :=
  if t.isClosed = false ∧ message.sender.isSome then
    s.update i { t with waiting := t.waiting ++ [message] }
  else s.pass (some t.conn) message

/-- The channel has one place. -/
def announce (s : ServerHandle K A M) (i : ℕ) (t : Service K A M) : ServerHandle K A M :=
  match t.waiting with
  | message :: waiting =>
    if t.isClosed then
      (s.update i { t with waiting := waiting }).pass (some t.conn) message
    else if t.nodeIdTx.isNone then
      (s.update i { t with waiting := waiting, nodeIdTx := message.sender }).pass
        (some t.conn) message
    else s
  | [] => s

variable [DecidableEq K]

def removeRemoteNode (s : ServerHandle K A M) (node : K) : ServerHandle K A M :=
  { s with remoteNodes := s.remoteNodes.remove node }

def notifySelfDisconnect (s : ServerHandle K A M) (origin : Option (Connection K))
    (destination : NodeId K A) : ServerHandle K A M :=
  (s.pass origin (.hyparview (.disconnect ⟨destination, false⟩))).removeRemoteNode
    destination.localId

/-- The receiver of the channel takes the first name, and stores the connection under it. -/
def learn (s : ServerHandle K A M) (i : ℕ) (t : Service K A M) : ServerHandle K A M :=
  match t.nodeIdTx, t.received with
  | some nodeId, none =>
    { s.update i { t with nodeIdTx := none, received := some nodeId } with
      remoteNodes := s.remoteNodes.insert nodeId.localId t.conn }
  | _, _ => s

/-- The receiver keeps the name for the end, and closes the channel. -/
def settle (s : ServerHandle K A M) (i : ℕ) (t : Service K A M) : ServerHandle K A M :=
  if t.received.isSome ∧ t.isClosed = false then
    s.update i { t with nodeIdOp := t.received, isClosed := true }
  else s

/-- The connection is closed. -/
def finish (s : ServerHandle K A M) (i : ℕ) (t : Service K A M) : ServerHandle K A M :=
  if t.finished then s
  else match t.nodeIdOp with
    | some nodeId =>
      (s.update i { t with nodeIdOp := none, finished := true }).notifySelfDisconnect
        (some t.conn) nodeId
    | none => s.update i { t with finished := true }

/-- A stored connection is given out; otherwise one sender at a time dials. Without a local node the
task fails at once. -/
def getConnection (s : ServerHandle K A M) (nodeid : NodeId K A) : ServerHandle K A M :=
  if s.localNode.isNone then s
  else match s.remoteNodes.get nodeid.localId with
    | some conn => { s with returned := s.returned ++ [(nodeid.localId, conn)] }
    | none => { s with connectionLocks := s.connectionLocks.insert nodeid.localId }

/-- The handshake with a dialled node proves its key; the connection is served at once. -/
def connected (s : ServerHandle K A M) (nodeid : NodeId K A) : ServerHandle K A M :=
  if nodeid.localId ∈ s.connectionLocks ∧ s.dialled.get nodeid.localId = none then
    let conn := s.nextConnection nodeid.localId
    { s.handleConnection conn with dialled := s.dialled.insert nodeid.localId conn }
  else s

/-- The new connection is stored and given out. -/
def stored (s : ServerHandle K A M) (nodeid : NodeId K A) : ServerHandle K A M :=
  match s.dialled.get nodeid.localId with
  | some conn => { s with
      remoteNodes := s.remoteNodes.insert nodeid.localId conn
      connectionLocks := s.connectionLocks.remove nodeid.localId
      dialled := s.dialled.remove nodeid.localId
      returned := s.returned ++ [(nodeid.localId, conn)] }
  | none => s

/-- No address of the node could be reached. -/
def dialFailed (s : ServerHandle K A M) (nodeid : NodeId K A) : ServerHandle K A M :=
  if nodeid.localId ∈ s.connectionLocks ∧ s.dialled.get nodeid.localId = none then
    { s with connectionLocks := s.connectionLocks.remove nodeid.localId }.notifySelfDisconnect none
      nodeid
  else s

/-- What happens in the task of a connection. -/
def serve (s : ServerHandle K A M) (i : ℕ) (f : Service K A M → ServerHandle K A M) :
    ServerHandle K A M := s.services[i]?.elim s f

def step (s : ServerHandle K A M) : ServerInput K A M → Exec (ServerHandle K A M)
  | .registerLocalNode localId => .ok { s with localNode := some localId }
  | .accept peer => .ok (s.handleConnection (s.nextConnection peer))
  | .getConnection nodeid => .ok (s.getConnection nodeid)
  | .connected nodeid => .ok (s.connected nodeid)
  | .stored nodeid => .ok (s.stored nodeid)
  | .dialFailed nodeid => .ok (s.dialFailed nodeid)
  | .sendFailed destination => .ok (s.notifySelfDisconnect none destination)
  | .removeRemoteNode node => .ok (s.removeRemoteNode node)
  | .receive i message => .ok (s.serve i (fun t => s.receive i t message))
  | .announce i => .ok (s.serve i (s.announce i))
  | .learn i => .ok (s.serve i (s.learn i))
  | .settle i => .ok (s.serve i (s.settle i))
  | .finish i => .ok (s.serve i (s.finish i))

end ServerHandle

/-- The message names a sender that has the key. -/
def P2pNodeProtocolMessage.SentBy (m : P2pNodeProtocolMessage K A M) (k : K) : Prop :=
  m.sender.map NodeId.localId = some k

instance [DecidableEq K] (m : P2pNodeProtocolMessage K A M) (k : K) : Decidable (m.SentBy k) :=
  inferInstanceAs (Decidable (_ = _))

/-- All names that the task of a connection deals with have the key of the peer. -/
structure Service.Bound (t : Service K A M) : Prop where
  waiting : ∀ m ∈ t.waiting, m.SentBy t.conn.peer
  nodeIdTx : ∀ n ∈ t.nodeIdTx, n.localId = t.conn.peer
  received : ∀ n ∈ t.received, n.localId = t.conn.peer
  nodeIdOp : ∀ n ∈ t.nodeIdOp, n.localId = t.conn.peer

namespace ServerHandle

variable [DecidableEq K] {s s' : ServerHandle K A M} {t : Service K A M} {i : ℕ}
  {origin : Option (Connection K)} {m : P2pNodeProtocolMessage K A M} {conn : Connection K}

/-- The message that a step receives, with its connection. -/
def received (s : ServerHandle K A M) :
    ServerInput K A M → Option (Connection K × P2pNodeProtocolMessage K A M)
  | .receive i message => s.services[i]?.map (fun t => (t.conn, message))
  | _ => none

structure Bound (s : ServerHandle K A M) : Prop where
  remoteNodes : ∀ k c, s.remoteNodes.get k = some c → c.peer = k
  dialled : ∀ k c, s.dialled.get k = some c → c.peer = k
  returned : ∀ e ∈ s.returned, e.2.peer = e.1
  services : ∀ t ∈ s.services, t.Bound
  messageTx : ∀ c m, (some c, m) ∈ s.messageTx → m.SentBy c.peer

namespace Bound

lemma update (h : s.Bound) (ht : t.Bound) : (s.update i t).Bound := by
  refine { h with services := ?_ }
  intro u hu
  rcases List.mem_or_eq_of_mem_set hu with hu | rfl
  · exact h.services u hu
  · exact ht

lemma pass (h : s.Bound) (hm : ∀ c ∈ origin, m.SentBy c.peer) : (s.pass origin m).Bound := by
  unfold ServerHandle.pass
  split
  · refine { h with messageTx := ?_ }
    intro c x hx
    rcases List.mem_append.mp hx with hx | hx
    · exact h.messageTx c x hx
    · cases List.mem_singleton.mp hx
      exact hm c rfl
  · exact h

lemma handleConnection (h : s.Bound) (conn : Connection K) : (s.handleConnection conn).Bound := by
  unfold ServerHandle.handleConnection
  split
  · refine { h with services := ?_ }
    intro u hu
    rcases List.mem_append.mp hu with hu | hu
    · exact h.services u hu
    · rw [List.mem_singleton.mp hu]
      exact ⟨by simp, by simp, by simp, by simp⟩
  · exact h

lemma insert (h : s.Bound) {k : K} (hk : conn.peer = k) :
    ({ s with remoteNodes := s.remoteNodes.insert k conn } : ServerHandle K A M).Bound := by
  refine { h with remoteNodes := ?_ }
  intro j c hc
  rcases HashMap.get_insert_eq_some.mp hc with ⟨rfl, rfl⟩ | ⟨_, hc⟩
  · exact hk
  · exact h.remoteNodes j c hc

lemma removeRemoteNode (h : s.Bound) (node : K) : (s.removeRemoteNode node).Bound := by
  refine { h with remoteNodes := ?_ }
  intro k c hc
  exact h.remoteNodes k c (HashMap.get_remove_eq_some.mp hc).2

lemma notifySelfDisconnect (h : s.Bound) {destination : NodeId K A}
    (hd : ∀ c ∈ origin, destination.localId = c.peer) :
    (s.notifySelfDisconnect origin destination).Bound := by
  apply removeRemoteNode
  apply h.pass
  intro c hc
  exact congrArg some (hd c hc)

lemma getConnection (h : s.Bound) (nodeid : NodeId K A) : (s.getConnection nodeid).Bound := by
  unfold ServerHandle.getConnection
  split
  · exact h
  cases hg : s.remoteNodes.get nodeid.localId with
  | some conn =>
    refine { h with returned := ?_ }
    intro e he
    rcases List.mem_append.mp he with he | he
    · exact h.returned e he
    · rw [List.mem_singleton.mp he]
      exact h.remoteNodes _ _ hg
  | none => exact { h with }

lemma connected (h : s.Bound) (nodeid : NodeId K A) : (s.connected nodeid).Bound := by
  unfold ServerHandle.connected
  split
  · refine { h.handleConnection _ with dialled := ?_ }
    intro k c hc
    rcases HashMap.get_insert_eq_some.mp hc with ⟨rfl, rfl⟩ | ⟨_, hc⟩
    · rfl
    · exact h.dialled k c hc
  · exact h

lemma stored (h : s.Bound) (nodeid : NodeId K A) : (s.stored nodeid).Bound := by
  unfold ServerHandle.stored
  cases hg : s.dialled.get nodeid.localId with
  | some conn =>
    have hpeer := h.dialled _ _ hg
    refine { h.insert hpeer with dialled := ?_, returned := ?_ }
    · intro k c hc
      exact h.dialled k c (HashMap.get_remove_eq_some.mp hc).2
    · intro e he
      rcases List.mem_append.mp he with he | he
      · exact h.returned e he
      · rw [List.mem_singleton.mp he]
        exact hpeer
  | none => exact h

lemma receive (h : s.Bound) (ht : t.Bound) (hm : m.SentBy t.conn.peer) :
    (s.receive i t m).Bound := by
  unfold ServerHandle.receive
  split
  · apply h.update
    refine { ht with waiting := ?_ }
    intro x hx
    rcases List.mem_append.mp hx with hx | hx
    · exact ht.waiting x hx
    · rw [List.mem_singleton.mp hx]
      exact hm
  · apply h.pass
    rintro c ⟨⟩
    exact hm

lemma announce (h : s.Bound) (ht : t.Bound) : (s.announce i t).Bound := by
  unfold ServerHandle.announce
  split
  next message waiting hw =>
    have hm : message.SentBy t.conn.peer := ht.waiting _ (hw ▸ List.mem_cons_self)
    have hwaiting : ∀ x ∈ waiting, x.SentBy t.conn.peer :=
      fun x hx => ht.waiting x (hw ▸ List.mem_cons_of_mem _ hx)
    have hpass : ∀ c ∈ some t.conn, message.SentBy c.peer := by
      rintro c ⟨⟩
      exact hm
    split_ifs
    · have ht' : ({ t with waiting := waiting } : Service K A M).Bound :=
        { ht with waiting := hwaiting }
      exact (h.update ht').pass hpass
    · have ht' : ({ t with waiting := waiting, nodeIdTx := message.sender } :
          Service K A M).Bound := by
        refine { ht with waiting := hwaiting, nodeIdTx := ?_ }
        intro n hn
        have hn : message.sender = some n := hn
        rw [P2pNodeProtocolMessage.SentBy, hn] at hm
        exact Option.some.inj hm
      exact (h.update ht').pass hpass
    · exact h
  next => exact h

lemma learn (h : s.Bound) (ht : t.Bound) : (s.learn i t).Bound := by
  unfold ServerHandle.learn
  split
  next nodeId hn _ =>
    have hpeer := ht.nodeIdTx nodeId hn
    have ht' : ({ t with nodeIdTx := none, received := some nodeId } : Service K A M).Bound := by
      refine { ht with nodeIdTx := by simp, received := ?_ }
      rintro n ⟨⟩
      exact hpeer
    exact (h.update ht').insert hpeer.symm
  next => exact h

lemma settle (h : s.Bound) (ht : t.Bound) : (s.settle i t).Bound := by
  unfold ServerHandle.settle
  split
  · exact h.update { ht with nodeIdOp := ht.received }
  · exact h

lemma finish (h : s.Bound) (ht : t.Bound) : (s.finish i t).Bound := by
  unfold ServerHandle.finish
  split
  · exact h
  have ht' : ({ t with nodeIdOp := none, finished := true } : Service K A M).Bound :=
    { ht with nodeIdOp := by simp }
  cases hn : t.nodeIdOp with
  | some nodeId =>
    apply (h.update ht').notifySelfDisconnect
    rintro c ⟨⟩
    exact ht.nodeIdOp nodeId hn
  | none => exact h.update ht'

lemma serve (h : s.Bound) {f : Service K A M → ServerHandle K A M}
    (hf : ∀ t, s.services[i]? = some t → t.Bound → (f t).Bound) : (s.serve i f).Bound := by
  unfold ServerHandle.serve
  cases ht : s.services[i]? with
  | none => exact h
  | some t => exact hf t ht (h.services t (List.mem_of_getElem? ht))

end Bound

lemma Bound.step {j : ServerInput K A M} (h : s.Bound) (hs : s.step j = .ok s')
    (hm : ∀ r ∈ s.received j, r.2.SentBy r.1.peer) : s'.Bound := by
  cases j with
  | registerLocalNode localId =>
    cases hs
    exact { h with }
  | accept peer =>
    cases hs
    exact h.handleConnection _
  | getConnection nodeid =>
    cases hs
    exact h.getConnection nodeid
  | connected nodeid =>
    cases hs
    exact h.connected nodeid
  | stored nodeid =>
    cases hs
    exact h.stored nodeid
  | dialFailed nodeid =>
    cases hs
    unfold ServerHandle.dialFailed
    split
    · apply Bound.notifySelfDisconnect
      · exact { h with }
      · simp
    · exact h
  | sendFailed destination =>
    cases hs
    exact h.notifySelfDisconnect (by simp)
  | removeRemoteNode node =>
    cases hs
    exact h.removeRemoteNode node
  | receive i message =>
    cases hs
    exact h.serve fun t hi ht => h.receive ht (hm (t.conn, message) (by simp [received, hi]))
  | announce i =>
    cases hs
    exact h.serve fun t _ ht => h.announce ht
  | learn i =>
    cases hs
    exact h.serve fun t _ ht => h.learn ht
  | settle i =>
    cases hs
    exact h.serve fun t _ ht => h.settle ht
  | finish i =>
    cases hs
    exact h.serve fun t _ ht => h.finish ht

lemma bound_of_run {tr : List (Taken (ServerHandle K A M) (ServerInput K A M))}
    (h : Run step new tr s)
    (hm : ∀ e ∈ tr, ∀ r ∈ e.before.received e.input, r.2.SentBy r.1.peer) : s.Bound :=
  h.invariant_of (C := fun e => ∀ r ∈ e.before.received e.input, r.2.SentBy r.1.peer)
    (fun _ _ _ hb hs hc => hb.step hs hc) ⟨by simp [new], by simp [new], by simp [new],
      by simp [new], by simp [new]⟩ hm

/-- If every message names the peer of its connection as its sender, connections are stored under
the keys of their peers, and the local node hears from each peer in its own name only. -/
theorem bound_to_keys {tr : List (Taken (ServerHandle K A M) (ServerInput K A M))}
    (h : Run step new tr s)
    (hm : ∀ e ∈ tr, ∀ r ∈ e.before.received e.input, r.2.SentBy r.1.peer) :
    (∀ k c, s.remoteNodes.get k = some c → c.peer = k) ∧
      ∀ c m, (some c, m) ∈ s.messageTx → m.SentBy c.peer :=
  ⟨(bound_of_run h hm).remoteNodes, (bound_of_run h hm).messageTx⟩

/-- Under the same condition, who asks for a connection to a node gets one to that node. -/
theorem returned_to_owner {tr : List (Taken (ServerHandle K A M) (ServerInput K A M))}
    (h : Run step new tr s)
    (hm : ∀ e ∈ tr, ∀ r ∈ e.before.received e.input, r.2.SentBy r.1.peer) :
    ∀ e ∈ s.returned, e.2.peer = e.1 := (bound_of_run h hm).returned

/-- Node 1 dials and says so, and node 2 is dialled and answers. -/
def introduced : List (ServerInput ℕ ℕ ℕ) :=
  [.registerLocalNode 0, .accept 1, .receive 0 (.hyparview (.join ⟨⟨[], 1⟩⟩)), .announce 0,
    .learn 0, .settle 0, .getConnection ⟨[], 2⟩, .connected ⟨[], 2⟩, .stored ⟨[], 2⟩,
    .receive 1 (.hyparview (.neighbor ⟨⟨[], 2⟩, true⟩)), .announce 1, .learn 1, .settle 1]

theorem bound_to_keys_introduced : ∃ (s : ServerHandle ℕ ℕ ℕ)
    (tr : List (Taken (ServerHandle ℕ ℕ ℕ) (ServerInput ℕ ℕ ℕ))), Run step new tr s ∧
      s.remoteNodes.keys.length = 2 ∧ s.messageTx.length = 2 ∧
      (∀ k c, s.remoteNodes.get k = some c → c.peer = k) ∧
      ∀ c m, (some c, m) ∈ s.messageTx → m.SentBy c.peer := by
  have hrun : follow step new introduced = .ok _ := rfl
  exact ⟨_, _, Run.of_follow introduced hrun, by decide, by decide,
    bound_to_keys (Run.of_follow introduced hrun) (by decide)⟩

/-- Node 1 dials, and says that it is node 2. -/
def disguised : List (ServerInput ℕ ℕ ℕ) :=
  [.registerLocalNode 0, .accept 1, .receive 0 (.hyparview (.join ⟨⟨[], 2⟩⟩)), .announce 0,
    .learn 0, .getConnection ⟨[], 2⟩]

/-- What is meant for node 2 goes to node 1, and the local node hears from 1 in the name of 2. -/
theorem impostor_stored : ∃ (s : ServerHandle ℕ ℕ ℕ)
    (tr : List (Taken (ServerHandle ℕ ℕ ℕ) (ServerInput ℕ ℕ ℕ))), Run step new tr s ∧
      s.remoteNodes.get 2 = some ⟨0, 1⟩ ∧ (2, ⟨0, 1⟩) ∈ s.returned ∧
      ∃ m, (some ⟨0, 1⟩, m) ∈ s.messageTx ∧ ¬ m.SentBy 1 := by
  have hrun : follow step new disguised = .ok _ := rfl
  refine ⟨_, _, Run.of_follow disguised hrun, by decide, by decide,
    .hyparview (.join ⟨⟨[], 2⟩⟩), by decide, by decide⟩

end ServerHandle

end QuicP2p.P2p
