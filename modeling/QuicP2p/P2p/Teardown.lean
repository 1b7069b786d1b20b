import QuicP2p.P2p.Server

/-! The end of a connection while the registry holds another one to the same node. -/

namespace QuicP2p.P2p

open Library

variable {K A M : Type} [DecidableEq K]

/-- A disconnection in the name of the node with the given key. -/
def P2pNodeProtocolMessage.Disconnects (k : K) : P2pNodeProtocolMessage K A M → Prop
  | .hyparview (.disconnect m) => m.sender.localId = k
  | _ => False

instance (k : K) : ∀ m : P2pNodeProtocolMessage K A M, Decidable (m.Disconnects k)
  | .hyparview (.disconnect m) => inferInstanceAs (Decidable (m.sender.localId = k))
  | .hyparview (.join _) => .isFalse fun h => h
  | .hyparview (.forwardJoin _) => .isFalse fun h => h
  | .hyparview (.neighbor _) => .isFalse fun h => h
  | .hyparview (.shuffle _) => .isFalse fun h => h
  | .hyparview (.shuffleReply _) => .isFalse fun h => h
  | .plumtree _ => .isFalse fun h => h
  | .plumtreeStream _ => .isFalse fun h => h

namespace ServerHandle

variable {s : ServerHandle K A M} {i : ℕ} {t : Service K A M} {k : K} {conn : Connection K}

/-- The step ends the connection of the task `t`, and `conn`, another one, is stored under `k`. -/
structure Superseded (e : Taken (ServerHandle K A M) (ServerInput K A M)) (t : Service K A M)
    (k : K) (conn : Connection K) : Prop where
  ends : ∃ i, e.input = .finish i ∧ e.before.services[i]? = some t
  running : t.finished = false
  stored : e.before.remoteNodes.get k = some conn
  other : conn ≠ t.conn

/-- The stored connection stays, and the step queues no disconnection of its node. -/
def Spared (e : Taken (ServerHandle K A M) (ServerInput K A M)) (k : K) (conn : Connection K) :
    Prop :=
  e.after.remoteNodes.get k = some conn ∧
    ∀ m ∈ e.after.messageTx.drop e.before.messageTx.length, ¬ m.2.Disconnects k

omit [DecidableEq K] in
lemma messageTx_pass (origin : Option (Connection K)) (m : P2pNodeProtocolMessage K A M) :
    ∀ x ∈ (s.pass origin m).messageTx.drop s.messageTx.length, x = (origin, m) := by
  unfold pass
  split
  · rw [List.drop_left]
    simp
  · simp

lemma get_notifySelfDisconnect (origin : Option (Connection K)) (destination : NodeId K A) :
    (s.notifySelfDisconnect origin destination).remoteNodes.get k =
      if k = destination.localId then none else s.remoteNodes.get k := by
  unfold notifySelfDisconnect removeRemoteNode pass
  split <;> exact HashMap.get_remove

/-- A task that has kept a name takes the node with that name from the registry, whatever the
connection that is stored, and spares all others. -/
lemma finish_spared (ht : t.finished = false) (hk : s.remoteNodes.get k = some conn) :
    Spared ⟨s, .finish i, s.finish i t⟩ k conn ↔ t.nodeIdOp.map NodeId.localId ≠ some k := by
  unfold finish
  rw [if_neg (by simp [ht])]
  cases hn : t.nodeIdOp with
  | none =>
    refine iff_of_true ⟨hk, ?_⟩ (by simp)
    simp [ServerHandle.update]
  | some nodeId =>
    have hget := get_notifySelfDisconnect (k := k)
      (s := s.update i { t with nodeIdOp := none, finished := true }) (some t.conn) nodeId
    constructor
    · rintro ⟨hsame, _⟩ heq
      have heq : nodeId.localId = k := Option.some.inj heq
      rw [if_pos heq.symm] at hget
      rw [hget] at hsame
      cases hsame
    · intro hne
      have hne : k ≠ nodeId.localId := fun heq => hne (congrArg some heq.symm)
      refine ⟨hget.trans ((if_neg hne).trans hk), fun x hx => ?_⟩
      obtain rfl := messageTx_pass (s := s.update i { t with nodeIdOp := none, finished := true })
        (some t.conn) _ x hx
      exact Ne.symm hne

/-- In every run, the end of a connection spares another one that is stored in its place exactly
if its task has not kept the name of the node. -/
theorem superseded_spared_iff {tr : List (Taken (ServerHandle K A M) (ServerInput K A M))}
    (h : Run step new tr s) : ∀ e ∈ tr, Superseded e t k conn →
      (Spared e k conn ↔ t.nodeIdOp.map NodeId.localId ≠ some k) := by
  intro e he hsup
  obtain ⟨_, _, hs, _⟩ := h.to_before he
  obtain ⟨i, hi, hget⟩ := hsup.ends
  obtain ⟨s, input, s'⟩ := e
  obtain rfl : input = .finish i := hi
  have hget : s.services[i]? = some t := hget
  have hafter : s' = s.finish i t := by
    have hs : Except.ok (s.serve i (s.finish i)) = Except.ok s' := hs
    cases hs
    rw [serve, hget]
    rfl
  subst hafter
  exact finish_spared hsup.running hsup.stored

/-- Node 1 is dialled and says nothing there, but dials as well and sends a message. -/
def silent : List (ServerInput ℕ ℕ ℕ) :=
  [.registerLocalNode 0, .getConnection ⟨[], 1⟩, .connected ⟨[], 1⟩, .stored ⟨[], 1⟩, .accept 1,
    .receive 1 (.hyparview (.join ⟨⟨[], 1⟩⟩)), .announce 1, .learn 1, .settle 1, .finish 0]

theorem superseded_spared_iff_silent : ∃ (s : ServerHandle ℕ ℕ ℕ)
    (tr : List (Taken (ServerHandle ℕ ℕ ℕ) (ServerInput ℕ ℕ ℕ))), Run step new tr s ∧
      ∃ e ∈ tr, ∃ t, Superseded e t 1 ⟨1, 1⟩ ∧ t.conn.peer = 1 ∧ Spared e 1 ⟨1, 1⟩ := by
  have hrun : follow step new silent = .ok _ := rfl
  have h := Run.of_follow silent hrun
  refine ⟨_, _, h, _, List.mem_of_getLast? rfl,
    ⟨⟨0, 1⟩, [], none, none, false, none, false⟩, ?_⟩
  refine ⟨⟨⟨0, rfl, rfl⟩, rfl, rfl, by decide⟩, rfl, ?_⟩
  exact (superseded_spared_iff h _ (List.mem_of_getLast? rfl)
    ⟨⟨0, rfl, rfl⟩, rfl, rfl, by decide⟩).mpr (by decide)

/-- Node 1 dials, sends a message, and does the same again before its first connection is
closed. -/
def redialled : List (ServerInput ℕ ℕ ℕ) :=
  [.registerLocalNode 0, .accept 1, .receive 0 (.hyparview (.join ⟨⟨[], 1⟩⟩)), .announce 0,
    .learn 0, .settle 0, .accept 1, .receive 1 (.hyparview (.join ⟨⟨[], 1⟩⟩)), .announce 1,
    .learn 1, .settle 1, .finish 0]

/-- The connection in use is taken from the registry, and the local node told to disconnect. -/
theorem replacement_torn_down : ∃ (s : ServerHandle ℕ ℕ ℕ)
    (tr : List (Taken (ServerHandle ℕ ℕ ℕ) (ServerInput ℕ ℕ ℕ))), Run step new tr s ∧
      ∃ e ∈ tr, ∃ t, Superseded e t 1 ⟨1, 1⟩ ∧ t.received = some ⟨[], 1⟩ ∧
        e.after.remoteNodes.get 1 = none ∧
        ∃ m ∈ e.after.messageTx.drop e.before.messageTx.length, m.2.Disconnects 1 := by
  have hrun : follow step new redialled = .ok _ := rfl
  have h := Run.of_follow redialled hrun
  refine ⟨_, _, h, _, List.mem_of_getLast? rfl,
    ⟨⟨0, 1⟩, [], none, some ⟨[], 1⟩, true, some ⟨[], 1⟩, false⟩, ?_⟩
  exact ⟨⟨⟨0, rfl, rfl⟩, rfl, rfl, by decide⟩, rfl, rfl, by decide⟩

end ServerHandle

end QuicP2p.P2p
