import QuicP2p.Plumtree.Partition

/-! What a node asks for: after the departure of a peer one missing message at most, and never a
message that it has. -/

namespace QuicP2p.Plumtree

open Library

variable {N I P : Type} [DecidableEq N] [DecidableEq I]

namespace Node

variable {n m : Node N I P} {x : N}

/-- The request that answers an announcement. -/
def graftOf (n : Node N I P) (a : NodeTime × IhaveMessage N I) : Action N I P :=
  .send a.2.sender (.graft ⟨n.id, some a.2.messageId, a.2.round⟩)

/-- The announcements of peers that have not been answered. -/
def pending (n : Node N I P) : Multiset (NodeTime × IhaveMessage N I) :=
  n.missings.waiting.filter (fun a => a.2.sender ∈ n.neighbours)

section

variable {taken : Option (NodeTime × IhaveMessage N I)}

lemma Regrafted.neighbours_eq (h : Regrafted n m taken) : m.neighbours = n.neighbours := by
  obtain ⟨_, _, hd⟩ := h.drained
  exact hd.neighbours_eq

lemma Regrafted.drained_known (h : Regrafted n m taken) : ∃ spent, Drained n m spent ∧
    spent.filter (fun a => a.2.sender ∈ n.neighbours) = taken.toList := by
  obtain ⟨strange, hstrange, hd⟩ := h.drained
  have hnone : strange.filter (fun a => a.2.sender ∈ n.neighbours) = [] := by
    apply List.filter_eq_nil_iff.mpr
    intro a ha
    simpa using hstrange a ha
  have hall : taken.toList.filter (fun a => a.2.sender ∈ n.neighbours) = taken.toList := by
    apply List.filter_eq_self.mpr
    intro a ha
    exact decide_eq_true (h.known a (Option.mem_toList.mp ha))
  refine ⟨_, hd, ?_⟩
  rw [List.filter_append, hnone, hall, List.nil_append]

lemma Regrafted.actions_eq (h : Regrafted n m taken) :
    m.actions = n.actions ++ taken.toList.map n.graftOf := by
  obtain ⟨spent, hd, hknown⟩ := h.drained_known
  rw [hd.actions_eq, grafts, hknown]
  rfl

lemma Regrafted.pending_eq (h : Regrafted n m taken) :
    n.pending = ↑taken.toList + m.pending := by
  obtain ⟨spent, hd, hknown⟩ := h.drained_known
  rw [pending, hd.waiting_eq, Multiset.filter_add, Multiset.filter_coe, hknown, pending,
    hd.neighbours_eq]

/-- The loop ends at the first peer that can be asked, which is eager from then on, or with an
empty table. -/
lemma Regrafted.repaired (h : Regrafted n m taken) :
    (∃ y, y ∈ m.eagerPushPeers) ∨ m.pending = 0 := by
  cases ht : taken with
  | none =>
    right
    rw [pending, h.emptied ht]
    rfl
  | some a =>
    left
    obtain ⟨strange, _, hd⟩ := h.drained
    refine ⟨a.2.sender, (hd.eager _).mpr (.inr ⟨h.known a ht, a, ?_, rfl⟩)⟩
    simp [ht]

end

variable {id : N} {options : NodeOptions} {choices : List ℕ}
  {tr : List (Taken (Node N I P) (Input N I P))}

/-- After the departure of a peer the others are left, and one of them is eager or none of them has
announced a missing message. At most one message is asked for, of a peer that is left, and the
announcements of the peers stay but for that one. -/
theorem departure_repaired (h : Run step (withOptions id options choices) tr n)
    (hx : x ∈ n.neighbours) : ∃ m, n.operate (.call (.handleNeighborDown x)) = .ok (none, m) ∧
      m.neighbours = n.neighbours.erase x ∧
      ((∃ y, y ∈ m.eagerPushPeers) ∨ ∀ a ∈ m.missings.waiting, a.2.sender ∉ m.neighbours) ∧
      ∃ taken : Option (NodeTime × IhaveMessage N I),
        n.queuedSince (none, m) = taken.toList.map n.graftOf ∧
        (∀ a ∈ taken, a.2.sender ≠ x ∧ a.2.sender ∈ m.neighbours) ∧
        n.missings.waiting.filter (fun a => a.2.sender ∈ m.neighbours) =
          ↑taken.toList + m.missings.waiting.filter (fun a => a.2.sender ∈ m.neighbours) := by
  obtain ⟨m, hm, hd⟩ := handleNeighborDown_spec (valid_of_run h) x
  have hop : n.operate (.call (.handleNeighborDown x)) = .ok (none, m) := by
    simp only [operate, perform, hm, ok_bind]
  refine ⟨m, hop, ?_⟩
  cases hd with
  | unknown hno => exact absurd hx hno
  | @eager _ y hy =>
    refine ⟨neighbours_dropPeer x, .inl ⟨y, hy⟩, none, ?_, by simp, ?_⟩
    · exact List.drop_length
    · simp [dropPeer]
  | @grafted _ _ taken hk =>
    have hsame := hk.neighbours_eq
    refine ⟨hsame.trans (neighbours_dropPeer x), ?_, taken, ?_, ?_, ?_⟩
    · refine hk.repaired.imp_right fun hnone => ?_
      exact Multiset.filter_eq_nil.mp hnone
    · simp only [queuedSince, Option.toList_none, List.nil_append, hk.actions_eq]
      exact List.drop_left
    · intro a ha
      have hknown := hk.known a ha
      rw [hsame]
      rw [neighbours_dropPeer] at hknown ⊢
      exact ⟨Finset.ne_of_mem_erase hknown, hknown⟩
    · have hpending := hk.pending_eq
      rw [pending, pending, ← hsame] at hpending
      exact hpending

/-- Peer 1 announces a message and goes. Peer 2 announces it as well, and another one, and is
lazy, so that peer 3 is the last eager one. -/
def bereft : List (Input ℕ ℕ ℕ) :=
  [.call (.handleNeighborUp 1), .call (.handleNeighborUp 2), .call (.handleNeighborUp 3),
    .receive (.ihave ⟨1, 7, 0, false⟩), .receive (.ihave ⟨2, 7, 1, false⟩),
    .receive (.ihave ⟨2, 8, 1, false⟩), .receive (.prune ⟨2⟩), .call (.handleNeighborDown 1)]

theorem departure_repaired_bereft : ∃ (n : Node ℕ ℕ ℕ)
    (tr : List (Taken (Node ℕ ℕ ℕ) (Input ℕ ℕ ℕ))), Run step (.new 0 []) tr n ∧
      ∃ m, n.operate (.call (.handleNeighborDown 3)) = .ok (none, m) ∧
        m.eagerPushPeers.toList = [2] ∧
        n.queuedSince (none, m) = [.send 2 (.graft ⟨0, some 8, 1⟩)] ∧
        ((∃ y, y ∈ m.eagerPushPeers) ∨ ∀ a ∈ m.missings.waiting, a.2.sender ∉ m.neighbours) := by
  have hrun : follow step (.new 0 []) bereft = .ok _ := rfl
  obtain ⟨m, hm, _, hrepaired, _⟩ :=
    departure_repaired (x := 3) (Run.of_follow bereft hrun) (by decide)
  have hm' : _ = Except.ok (none, m) := hm
  cases hm'
  exact ⟨_, _, Run.of_follow _ hrun, _, rfl, by decide, by decide, hrepaired⟩

/-- A broadcast takes a name that the node neither has nor waits for. -/
def Novel (n : Node N I P) : Input N I P → Prop
  | .call (.broadcastMessage msg) =>
    n.messages.containsKey msg.id = false ∧ n.missings.ihaves.containsKey msg.id = false
  | _ => True

instance (n : Node N I P) : ∀ i, Decidable (n.Novel i)
  | .call (.broadcastMessage _) => inferInstanceAs (Decidable (_ ∧ _))
  | .call (.forgetMessage _) => .isTrue trivial
  | .call (.handleNeighborUp _) => .isTrue trivial
  | .call (.handleNeighborDown _) => .isTrue trivial
  | .call (.tick _) => .isTrue trivial
  | .call (.reorder _ _) => .isTrue trivial
  | .call (.optionsMut _) => .isTrue trivial
  | .receive _ => .isTrue trivial
  | .pollAction => .isTrue trivial

lemma containsKey_false {V : Type} {s : HashMap I V} {i : I} :
    s.containsKey i = false ↔ ¬ ∃ v, s.get i = some v := by
  rw [← Bool.not_eq_true, HashMap.containsKey_iff]

lemma WellFormed.operate (h : n.WellFormed) {i : Input N I P} (hi : n.Novel i) :
    Yields (n.operate i) (fun r => r.2.WellFormed) := by
  cases i with
  | call c =>
    by_cases hc : c.Keeping
    · refine (perform_effect h.valid hc ?_).bind ?_
      · rintro msg rfl
        exact ⟨containsKey_false.mp hi.1, containsKey_false.mp hi.2⟩
      · rintro m ⟨⟨acts, hm⟩, _⟩
        exact .ok (hm.wellFormed h)
    · cases c with
      | forgetMessage j =>
        refine .ok ⟨h.valid, ?_⟩
        rintro i hr ⟨p, hp⟩
        exact h.recorded i hr ⟨p, (HashMap.get_remove_eq_some.mp hp).2⟩
      | _ => exact absurd trivial hc
  | receive msg =>
    refine .ok ?_
    by_cases hs : msg.sender ∈ n.neighbours
    · obtain ⟨acts, he⟩ := handleProtocolMessage_effect h.valid msg hs
      exact he.wellFormed h
    · rw [handleProtocolMessage_unknown hs]
      exact h
  | pollAction =>
    refine (pollAction_effect h.valid).mono ?_
    rintro r ⟨m, acts, he, _, rfl⟩
    have hm := he.wellFormed h
    exact ⟨hm.valid, hm.recorded⟩

/-- The requests among the actions of a change from `n` to `m` name messages that were announced,
and no message is stored where there are any. -/
def Asks (n m : Node N I P) (acts : List (Action N I P)) : Prop :=
  ∀ d g i, .send d (.graft g) ∈ acts → g.messageId = some i →
    n.missings.Recorded i ∧ m.messages = n.messages

omit [DecidableEq N] in
lemma asks_nil : Asks n m [] := fun d g i h => by cases h

omit [DecidableEq N] in
lemma asks_append {as bs : List (Action N I P)} :
    Asks n m (as ++ bs) ↔ Asks n m as ∧ Asks n m bs := by
  constructor
  · intro h
    exact ⟨fun d g i hm => h d g i (List.mem_append_left _ hm),
      fun d g i hm => h d g i (List.mem_append_right _ hm)⟩
  · rintro ⟨ha, hb⟩ d g i hm
    exact (List.mem_append.mp hm).elim (ha d g i) (hb d g i)

lemma pushed_asks (g : GossipMessage N I P) : Asks n m (n.pushed g) := by
  intro d g' i hm
  rcases mem_pushed.mp hm with hm | ⟨x, _, _, hm⟩ | ⟨x, _, _, hm⟩ <;> cases hm

omit [DecidableEq N] in
lemma optimizing_asks (g : GossipMessage N I P) : Asks n m (n.optimizing g) := by
  intro d g' i hm hi
  rcases mem_optimizing hm with ⟨d', r, hm⟩ | hm
  · cases hm
    cases hi
  · cases hm

lemma Drained.asks {spent : List (NodeTime × IhaveMessage N I)} (h : Drained n m spent) :
    Asks n m (n.grafts spent) := by
  intro d g i hm hi
  obtain ⟨a, ha, _, hm⟩ := mem_grafts.mp hm
  cases hm
  cases hi
  refine ⟨MissingMessages.waiting_recorded (t := a.1) ?_, h.messages_eq⟩
  rw [h.waiting_eq]
  exact Multiset.mem_add.mpr (.inl ha)

/-- The operation queued the actions `acts`, and these ask for announced messages only. -/
def Requested (n : Node N I P) (r : Option (Action N I P) × Node N I P)
    (acts : List (Action N I P)) : Prop :=
  r.1.toList ++ r.2.actions = n.actions ++ acts ∧ Asks n r.2 acts

omit [DecidableEq N] in
lemma Requested.quiet (ha : m.actions = n.actions) : Requested n (none, m) [] :=
  ⟨by simp [ha], asks_nil⟩

omit [DecidableEq N] in
lemma Requested.queuedSince {r : Option (Action N I P) × Node N I P} {acts : List (Action N I P)}
    (h : Requested n r acts) : n.queuedSince r = acts := by
  rw [Node.queuedSince, h.1, List.drop_left]

lemma perform_requested (hn : n.missings.Valid) (c : Call N I P) :
    Yields (n.perform c) (fun m => ∃ acts, Requested n (none, m) acts) := by
  cases c with
  | broadcastMessage msg =>
    refine .ok ⟨_, ?_, pushed_asks ⟨n.id, msg, 0⟩⟩
    rw [broadcastMessage_eq]
    rfl
  | forgetMessage i => exact .ok ⟨[], .quiet rfl⟩
  | handleNeighborUp x =>
    by_cases hk : x ∈ n.neighbours ∨ n.id = x
    · refine .ok ⟨[], .quiet ?_⟩
      rw [handleNeighborUp, if_pos (by rwa [isKnownNode_iff])]
    · rw [not_or] at hk
      refine .ok ⟨_, congrArg Node.actions (handleNeighborUp_of_new hk.1 hk.2), ?_⟩
      intro d g i hm
      obtain ⟨j, _, hm⟩ := List.mem_map.mp hm
      cases hm
  | handleNeighborDown x =>
    refine (handleNeighborDown_spec hn x).mono fun m hm => ?_
    cases hm with
    | unknown _ => exact ⟨[], .quiet rfl⟩
    | eager _ _ => exact ⟨[], .quiet rfl⟩
    | grafted _ hk =>
      obtain ⟨_, _, hk⟩ := hk.drained
      exact ⟨_, hk.actions_eq, hk.asks⟩
  | tick d => exact .ok ⟨[], .quiet rfl⟩
  | reorder i j => exact .ok ⟨[], .quiet rfl⟩
  | optionsMut o => exact .ok ⟨[], .quiet rfl⟩

lemma receive_requested (n : Node N I P) (msg : ProtocolMessage N I P) :
    ∃ acts, Requested n (none, (n.handleProtocolMessage msg).2) acts := by
  by_cases hs : msg.sender ∈ n.neighbours
  · rw [handleProtocolMessage.eq_def, if_pos (isKnownNode_iff.mpr hs)]
    cases msg with
    | gossip g =>
      dsimp only
      by_cases hg : n.Holds g.message.id
      · rw [handleGossip_of_holds hg]
        refine ⟨_, rfl, fun d g' i hm => ?_⟩
        cases List.mem_singleton.mp hm
      · rw [handleGossip_of_fresh hg]
        exact ⟨_, rfl, asks_append.mpr ⟨pushed_asks g, optimizing_asks g⟩⟩
    | ihave h =>
      dsimp only [handleIhave]
      split
      · exact ⟨[], .quiet rfl⟩
      · exact ⟨[], .quiet rfl⟩
    | graft g =>
      dsimp only [handleGraft]
      split
      · split
        · refine ⟨_, rfl, fun d g' i hm => ?_⟩
          cases List.mem_singleton.mp hm
        · exact ⟨[], .quiet rfl⟩
      · exact ⟨[], .quiet rfl⟩
    | prune p => exact ⟨[], .quiet rfl⟩
  · rw [handleProtocolMessage_unknown hs]
    exact ⟨[], .quiet rfl⟩

lemma operate_requested (hn : n.missings.Valid) (i : Input N I P) :
    Yields (n.operate i) (fun r => ∃ acts, Requested n r acts) := by
  cases i with
  | call c => exact (perform_requested hn c).bind fun m hm => .ok hm
  | receive msg => exact .ok (receive_requested n msg)
  | pollAction =>
    refine (handleExpiration_spec hn).bind ?_
    rintro m ⟨⟨spent, hm, _⟩, _⟩
    refine .ok ⟨_, ?_, hm.asks⟩
    rw [← hm.actions_eq]
    cases m.actions <;> rfl

/-- If broadcasts take new names, no message is both held and missing, and no operation asks for
a message that the node has, before it or after it. -/
theorem held_never_requested (h : Run step (withOptions id options choices) tr n)
    (hc : ∀ e ∈ tr, e.before.Novel e.input) :
    (∀ i, n.messages.containsKey i = true → n.missings.ihaves.containsKey i = false) ∧
      ∀ i, ∃ r, n.operate i = .ok r ∧ ∀ d g j, .send d (.graft g) ∈ n.queuedSince r →
        g.messageId = some j →
          n.messages.containsKey j = false ∧ r.2.messages.containsKey j = false := by
  have hw : n.WellFormed := by
    refine h.invariant_of (P := WellFormed) (C := fun e => e.before.Novel e.input) ?_
      (withOptions_wellFormed id options choices) hc
    intro m i k hm hs hi
    obtain ⟨r, hr, hs⟩ := bind_eq_ok.mp hs
    cases hs
    exact (hm.operate hi).of_ok hr
  constructor
  · intro i hi
    refine containsKey_false.mpr fun hr => ?_
    exact hw.recorded i hr (HashMap.containsKey_iff.mp hi)
  · intro i
    obtain ⟨r, hr, acts, hreq⟩ := operate_requested hw.valid i
    refine ⟨r, hr, fun d g j hm hj => ?_⟩
    rw [hreq.queuedSince] at hm
    obtain ⟨hrec, hsame⟩ := hreq.2 d g j hm hj
    have hno : n.messages.containsKey j = false := containsKey_false.mpr (hw.recorded j hrec)
    exact ⟨hno, hsame ▸ hno⟩

/-- Peer 1 announces a message, which peer 2 then sends and the node forgets; peer 1 announces it
again. -/
def reannounced : List (Input ℕ ℕ ℕ) :=
  [.call (.handleNeighborUp 1), .call (.handleNeighborUp 2), .call (.broadcastMessage ⟨5, 50⟩),
    .receive (.ihave ⟨1, 7, 0, false⟩), .receive (.gossip ⟨2, ⟨7, 70⟩, 0⟩),
    .call (.forgetMessage 7), .receive (.ihave ⟨1, 7, 0, true⟩)]

theorem held_never_requested_reannounced : ∃ (n : Node ℕ ℕ ℕ)
    (tr : List (Taken (Node ℕ ℕ ℕ) (Input ℕ ℕ ℕ))), Run step (.new 0 []) tr n ∧
      n.missings.ihaves.containsKey 7 = true ∧
      (∀ i, n.messages.containsKey i = true → n.missings.ihaves.containsKey i = false) := by
  have hrun : follow step (.new 0 []) reannounced = .ok _ := rfl
  have hr := Run.of_follow reannounced hrun
  exact ⟨_, _, hr, by decide, (held_never_requested hr (by decide)).1⟩

end Node

end QuicP2p.Plumtree
