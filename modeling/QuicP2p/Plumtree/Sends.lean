import QuicP2p.Plumtree.Cluster

/-! To whom a node on its own sends: to its peers, but for the request that makes a shorter path. -/

namespace QuicP2p.Plumtree

open Library

variable {N I P : Type} [DecidableEq N] [DecidableEq I]

inductive Input (N I P : Type)
  | call (c : Call N I P)
  | receive (message : ProtocolMessage N I P)
  | pollAction
  deriving DecidableEq

namespace Node

/-- One operation of a node, with the action that a poll takes from it. -/
def operate (n : Node N I P) : Input N I P → Exec (Option (Action N I P) × Node N I P)
  | .call c => do
    let n ← n.perform c
    .ok (none, n)
  | .receive message => .ok (none, (n.handleProtocolMessage message).2)
  | .pollAction => n.pollAction

def step (n : Node N I P) (i : Input N I P) : Exec (Node N I P) := do
  let (_, n) ← n.operate i
  .ok n

/-- The actions that an operation queued, the one that it took included. -/
def queuedSince (n : Node N I P) (r : Option (Action N I P) × Node N I P) : List (Action N I P) :=
  (r.1.toList ++ r.2.actions).drop n.actions.length

/-- A message that the node does not have comes from a peer, along a path that is longer by the
threshold than that of the recorded announcement, whose owner is no longer a peer. -/
def Misdirects (n : Node N I P) : Input N I P → Prop
  | .receive (.gossip g) =>
    g.sender ∈ n.neighbours ∧ ¬ n.Holds g.message.id ∧
      ∃ round owner, n.missings.getIhave g.message.id = some (round, owner) ∧
        (g.round.checkedSub round).any (n.options.optimizationThreshold ≤ ·) = true ∧
        owner ∉ n.neighbours
  | _ => False

/-- The change from `n` to `m` queued the actions `acts`, which send to peers only. -/
def Directed (m : Node N I P) (acts : List (Action N I P)) : Prop :=
  ∀ d msg, .send d msg ∈ acts → d ∈ m.neighbours

variable {n m : Node N I P} {acts : List (Action N I P)}

omit [DecidableEq I] in
lemma directed_nil (m : Node N I P) : m.Directed [] := fun d msg h => by cases h

omit [DecidableEq I] in
lemma directed_append {as bs : List (Action N I P)} :
    m.Directed (as ++ bs) ↔ m.Directed as ∧ m.Directed bs := by
  simp only [Directed, List.mem_append, or_imp, forall_and]

omit [DecidableEq I] in
lemma directed_send {d : N} {msg : ProtocolMessage N I P} (h : d ∈ m.neighbours) :
    m.Directed [.send d msg] := by
  intro d' msg' hm
  cases List.mem_singleton.mp hm
  exact h

omit [DecidableEq I] in
lemma pushed_directed (h : m.neighbours = n.neighbours) (g : GossipMessage N I P) :
    m.Directed (n.pushed g) := by
  intro d msg hm
  rw [h]
  rcases mem_pushed.mp hm with hm | ⟨x, hx, _, hm⟩ | ⟨x, hx, _, hm⟩
  · cases hm
  · cases hm
    exact mem_neighbours.mpr (.inl hx)
  · cases hm
    exact mem_neighbours.mpr (.inr hx)

lemma Drained.directed {spent : List (NodeTime × IhaveMessage N I)} (h : Drained n m spent) :
    m.Directed (n.grafts spent) := by
  intro d msg hm
  obtain ⟨a, _, ha, he⟩ := mem_grafts.mp hm
  cases he
  rw [h.neighbours_eq]
  exact ha

/-- The owner of the announcement is the one destination that nobody checks. -/
lemma optimizing_directed (h : m.neighbours = n.neighbours) {g : GossipMessage N I P}
    (hs : g.sender ∈ n.neighbours) (hg : ¬ n.Holds g.message.id) :
    m.Directed (n.optimizing g) ↔ ¬ n.Misdirects (.receive (.gossip g)) := by
  unfold optimizing
  cases hi : n.missings.getIhave g.message.id with
  | none => simp [Misdirects, hi, directed_nil]
  | some e =>
    obtain ⟨round, owner⟩ := e
    dsimp only
    split
    next ht =>
      have hpair : m.Directed [.send owner (.graft ⟨n.id, none, round⟩),
          .send g.sender (.prune ⟨n.id⟩)] ↔ owner ∈ n.neighbours := by
        constructor
        · intro hd
          exact h ▸ hd owner _ List.mem_cons_self
        · intro ho
          rw [← List.singleton_append, directed_append]
          exact ⟨directed_send (h ▸ ho), directed_send (h ▸ hs)⟩
      rw [hpair]
      simp [Misdirects, hs, hg, hi, ht, -mem_neighbours]
    next ht => simp [Misdirects, hi, ht, directed_nil]

/-- What one operation queues, and to whom. -/
structure Posted (n : Node N I P) (i : Input N I P) (r : Option (Action N I P) × Node N I P)
    (acts : List (Action N I P)) : Prop where
  valid : r.2.missings.Valid
  actions_eq : r.1.toList ++ r.2.actions = n.actions ++ acts
  directed : r.2.Directed acts ↔ ¬ n.Misdirects i

lemma Posted.quiet {i : Input N I P} (hv : m.missings.Valid) (ha : m.actions = n.actions)
    (hi : ¬ n.Misdirects i) : Posted n i (none, m) [] :=
  ⟨hv, by simp [ha], iff_of_true (directed_nil _) hi⟩

lemma perform_posted (hn : n.missings.Valid) (c : Call N I P) :
    Yields (n.perform c) (fun m => ∃ acts, Posted n (.call c) (none, m) acts) := by
  have hno : ¬ n.Misdirects (.call c) := fun h => h
  cases c with
  | broadcastMessage msg =>
    refine .ok ⟨n.pushed ⟨n.id, msg, 0⟩, ?_, ?_, ?_⟩
    · rw [broadcastMessage_eq]
      exact hn
    · rw [broadcastMessage_eq]
      rfl
    · exact iff_of_true (pushed_directed (neighbours_broadcastMessage msg) _) hno
  | forgetMessage i => exact .ok ⟨[], .quiet hn rfl hno⟩
  | handleNeighborUp x =>
    by_cases hk : x ∈ n.neighbours ∨ n.id = x
    · have hsame : n.handleNeighborUp x = n := by
        rw [handleNeighborUp, if_pos (by rwa [isKnownNode_iff])]
      exact ⟨n, congrArg Except.ok hsame, [], .quiet hn rfl hno⟩
    · rw [not_or] at hk
      have hnew := handleNeighborUp_of_new hk.1 hk.2
      refine .ok ⟨n.messages.keys.map fun i => .send x (.ihave ⟨n.id, i, 0, false⟩), ?_, ?_, ?_⟩
      · rw [hnew]
        exact hn
      · rw [hnew]
        rfl
      · refine iff_of_true (fun d msg hm => ?_) hno
        obtain ⟨i, _, he⟩ := List.mem_map.mp hm
        cases he
        rw [neighbours_handleNeighborUp hk.2]
        exact Finset.mem_insert_self x _
  | handleNeighborDown x =>
    refine (handleNeighborDown_spec hn x).mono fun m hm => ?_
    cases hm with
    | unknown _ => exact ⟨[], .quiet hn rfl hno⟩
    | eager _ _ => exact ⟨[], .quiet hn rfl hno⟩
    | grafted _ hk =>
      obtain ⟨_, _, hk⟩ := hk.drained
      exact ⟨_, hk.valid, hk.actions_eq, iff_of_true hk.directed hno⟩
  | tick d => exact .ok ⟨[], .quiet hn rfl hno⟩
  | reorder i j => exact .ok ⟨[], .quiet hn rfl hno⟩
  | optionsMut o => exact .ok ⟨[], .quiet hn rfl hno⟩

lemma handleGossip_posted (hn : n.missings.Valid) (g : GossipMessage N I P)
    (hs : g.sender ∈ n.neighbours) :
    ∃ acts, Posted n (.receive (.gossip g)) (none, n.handleGossip g) acts := by
  by_cases h : n.Holds g.message.id
  · rw [handleGossip_of_holds h]
    refine ⟨[.send g.sender (.prune ⟨n.id⟩)], hn, rfl, iff_of_true (directed_send ?_) ?_⟩
    · exact (neighbours_toLazy hs).symm ▸ hs
    · exact fun hm => hm.2.1 h
  · rw [handleGossip_of_fresh h]
    refine ⟨_, (MissingMessages.remove_spec hn g.message.id).1, rfl, ?_⟩
    have hsame := neighbours_toEager hs
    rw [directed_append]
    exact (and_iff_right (pushed_directed hsame g)).trans (optimizing_directed hsame hs h)

lemma handleGraft_posted (hn : n.missings.Valid) (g : GraftMessage N I)
    (hs : g.sender ∈ n.neighbours) :
    ∃ acts, Posted n (.receive (.graft g)) (none, n.handleGraft g) acts := by
  have hno : ¬ n.Misdirects (.receive (.graft g)) := fun h => h
  unfold handleGraft
  cases g.messageId with
  | none => exact ⟨[], .quiet hn rfl hno⟩
  | some i =>
    cases hget : n.messages.get i with
    | none =>
      simp only [toEager, hget]
      exact ⟨[], .quiet hn rfl hno⟩
    | some p =>
      simp only [toEager, hget]
      refine ⟨[.send g.sender (.gossip ⟨n.id, ⟨i, p⟩, g.round⟩)], hn, rfl, ?_⟩
      exact iff_of_true (directed_send ((neighbours_toEager hs).symm ▸ hs)) hno

lemma receive_posted (hn : n.missings.Valid) (msg : ProtocolMessage N I P) :
    ∃ acts, Posted n (.receive msg) (none, (n.handleProtocolMessage msg).2) acts := by
  by_cases hs : msg.sender ∈ n.neighbours
  · rw [handleProtocolMessage.eq_def, if_pos (isKnownNode_iff.mpr hs)]
    cases msg with
    | gossip g => exact handleGossip_posted hn g hs
    | ihave h =>
      refine ⟨[], .quiet ?_ ?_ fun hm => hm⟩
      · exact (handleIhave_effect hn h).valid
      · exact (handleIhave_effect hn h).actions_eq.trans (List.append_nil _)
    | graft g => exact handleGraft_posted hn g hs
    | prune p => exact ⟨[], .quiet hn rfl fun hm => hm⟩
  · rw [handleProtocolMessage_unknown hs]
    refine ⟨[], .quiet hn rfl ?_⟩
    cases msg with
    | gossip g => exact fun hm => hs hm.1
    | _ => exact fun hm => hm

lemma operate_posted (hn : n.missings.Valid) (i : Input N I P) :
    Yields (n.operate i) (fun r => ∃ acts, Posted n i r acts) := by
  cases i with
  | call c => exact (perform_posted hn c).bind fun m hm => .ok hm
  | receive msg => exact .ok (receive_posted hn msg)
  | pollAction =>
    refine (handleExpiration_spec hn).bind ?_
    rintro m ⟨⟨spent, hm, _⟩, _⟩
    refine .ok ⟨_, hm.valid, ?_, iff_of_true hm.directed fun h => h⟩
    rw [← hm.actions_eq]
    cases m.actions <;> rfl

variable {id : N} {options : NodeOptions} {choices : List ℕ}
  {tr : List (Taken (Node N I P) (Input N I P))}

lemma valid_of_run (h : Run step (withOptions id options choices) tr n) : n.missings.Valid := by
  refine h.invariant (P := fun m => m.missings.Valid) ?_ (MissingMessages.new_valid choices)
  intro m i k hm hs
  obtain ⟨r, hr, hs⟩ := bind_eq_ok.mp hs
  cases hs
  obtain ⟨_, hp⟩ := (operate_posted hm i).of_ok hr
  exact hp.valid

/-- An operation sends to peers only, exactly if it does not ask the owner of an announcement that
is no longer a peer for a shorter path. -/
theorem sends_to_neighbours_iff (h : Run step (withOptions id options choices) tr n)
    (i : Input N I P) :
    ∃ r, n.operate i = .ok r ∧
      ((∀ d msg, .send d msg ∈ n.queuedSince r →
          d ∈ r.2.eagerPushPeers ∨ d ∈ r.2.lazyPushPeers) ↔ ¬ n.Misdirects i) := by
  obtain ⟨r, hr, acts, hp⟩ := operate_posted (valid_of_run h) i
  have hqueued : n.queuedSince r = acts := by rw [queuedSince, hp.actions_eq, List.drop_left]
  refine ⟨r, hr, ?_⟩
  rw [hqueued, ← hp.directed]
  simp only [Directed, mem_neighbours]

/-- Peer 1 announces a message and goes down; peer 2 stays. -/
def abandoned : List (Input ℕ ℕ ℕ) :=
  [.call (.handleNeighborUp 1), .call (.handleNeighborUp 2), .receive (.ihave ⟨1, 7, 0, false⟩),
    .call (.handleNeighborDown 1)]

theorem sends_to_neighbours_iff_abandoned : ∃ (n : Node ℕ ℕ ℕ)
    (tr : List (Taken (Node ℕ ℕ ℕ) (Input ℕ ℕ ℕ))), Run step (.new 0 []) tr n ∧
      ∃ r, n.operate (.receive (.gossip ⟨2, ⟨7, 70⟩, 1⟩)) = .ok r ∧
        ∀ d msg, .send d msg ∈ n.queuedSince r →
          d ∈ r.2.eagerPushPeers ∨ d ∈ r.2.lazyPushPeers := by
  have hrun : follow step (.new 0 []) abandoned = .ok _ := rfl
  obtain ⟨r, hr, hiff⟩ := sends_to_neighbours_iff (Run.of_follow abandoned hrun)
    (.receive (.gossip ⟨2, ⟨7, 70⟩, 1⟩))
  refine ⟨_, _, Run.of_follow _ hrun, r, hr, hiff.mpr ?_⟩
  rintro ⟨_, _, round, owner, he, ht, _⟩
  cases he
  exact absurd ht (by decide)

/-- The message comes from peer 2 along a path of two hops: peer 1 is asked for a shorter one. -/
theorem stranger_grafted : ∃ (n : Node ℕ ℕ ℕ)
    (tr : List (Taken (Node ℕ ℕ ℕ) (Input ℕ ℕ ℕ))), Run step (.new 0 []) tr n ∧
      ∃ r, n.operate (.receive (.gossip ⟨2, ⟨7, 70⟩, 2⟩)) = .ok r ∧
        .send 1 (.graft ⟨0, none, 0⟩) ∈ n.queuedSince r ∧
        1 ∉ r.2.eagerPushPeers ∧ 1 ∉ r.2.lazyPushPeers := by
  have hrun : follow step (.new 0 []) abandoned = .ok _ := rfl
  exact ⟨_, _, Run.of_follow abandoned hrun, _, rfl, by decide, by decide, by decide⟩

end Node

end QuicP2p.Plumtree
