import QuicP2p.Plumtree.Effects

/-! The effect of each operation of a Plumtree node. -/

namespace QuicP2p.Plumtree

open Library

variable {N I P : Type} [DecidableEq N] [DecidableEq I]

namespace Node

variable {n m : Node N I P}

lemma broadcastMessage_effect {m : Message I P} (hn : n.missings.Valid) (h : ¬ n.Holds m.id)
    (hr : ¬ n.missings.Recorded m.id) :
    ∃ acts, Effect (some (.gossip ⟨n.id, m, 0⟩)) n (n.broadcastMessage m) acts := by
  rw [broadcastMessage_eq]
  refine ⟨n.pushed ⟨n.id, m, 0⟩ ++ [], .push h rfl (by rw [List.append_nil]) (by simp) rfl
    (fun _ hx => hx) hn (fun _ ha => .inl ha) fun i hi => ⟨hi, ?_⟩⟩
  rintro rfl
  exact hr hi

omit [DecidableEq N] in
lemma mem_optimizing {g : GossipMessage N I P} {a : Action N I P} (h : a ∈ n.optimizing g) :
    (∃ d r, a = .send d (.graft ⟨n.id, none, r⟩)) ∨ a = .send g.sender (.prune ⟨n.id⟩) := by
  unfold optimizing at h
  split at h
  · split at h
    · simp only [List.mem_cons, List.not_mem_nil, or_false] at h
      exact h.imp_left fun h => ⟨_, _, h⟩
    · simp at h
  · simp at h

omit [DecidableEq I] in
lemma neighbours_toEager {x : N} (h : x ∈ n.neighbours) :
    (n.toEager x).neighbours = n.neighbours := by
  ext y
  simp only [mem_neighbours, mem_toEager] at h ⊢
  by_cases hy : y = x
  · simp [hy, h]
  · simp [hy]

omit [DecidableEq I] in
lemma neighbours_toLazy {x : N} (h : x ∈ n.neighbours) :
    (n.toLazy x).neighbours = n.neighbours := by
  ext y
  simp only [mem_neighbours, toLazy, HashSet.mem_insert, HashSet.mem_remove] at h ⊢
  by_cases hy : y = x
  · simp [hy, h]
  · simp [hy]

lemma handleGossip_effect (hn : n.missings.Valid) (g : GossipMessage N I P)
    (hs : g.sender ∈ n.neighbours) :
    ∃ acts, Effect (some (.gossip g)) n (n.handleGossip g) acts := by
  by_cases h : n.Holds g.message.id
  · rw [handleGossip_of_holds h]
    refine ⟨[.send g.sender (.prune ⟨n.id⟩)], .still hn (arrived_of_holds h) rfl rfl
      (fun _ => rfl) ?_ (fun x hx => .inl (neighbours_toLazy hs ▸ hx)) (fun _ ha => .inl ha)
      (fun _ hi => .inl hi) ?_⟩
    · intro a ha
      rw [List.mem_singleton] at ha
      exact ⟨_, _, ha, rfl, by simp, by simp⟩
    · rintro m hm
      cases hm
      exact h
  · rw [handleGossip_of_fresh h]
    obtain ⟨hv, hw⟩ := MissingMessages.remove_spec hn g.message.id
    refine ⟨_, .push h rfl rfl ?_ rfl ?_ hv ?_ ?_⟩
    · intro a ha
      rcases mem_optimizing ha with ⟨d, r, rfl⟩ | rfl
      · exact ⟨_, _, rfl, rfl, by simp, by simp⟩
      · exact ⟨_, _, rfl, rfl, by simp, by simp⟩
    · intro x hx
      exact neighbours_toEager hs ▸ hx
    · intro a ha
      by_cases hi : a.2.messageId = g.message.id
      · exact .inr hi
      · exact .inl (by simpa [hw, hi] using ha)
    · intro i hi
      exact (MissingMessages.recorded_remove.mp hi).symm

lemma handleIhave_effect (hn : n.missings.Valid) (h : IhaveMessage N I) :
    Effect (some (.ihave h)) n (n.handleIhave h) [] := by
  unfold handleIhave
  split
  next hh =>
    have hh : n.Holds h.messageId := HashMap.containsKey_iff.mp hh
    refine .still hn rfl rfl (List.append_nil _).symm (fun _ => rfl) (by simp)
      (fun _ hx => .inl hx) (fun _ ha => .inl ha) (fun _ hi => .inl hi) ?_
    rintro m hm
    cases hm
    exact .inl hh
  next hh =>
    have hh : ¬ n.Holds h.messageId := mt HashMap.containsKey_iff.mpr hh
    obtain ⟨b, hb⟩ : ∃ b, (if n.eagerPushPeers.isEmpty = true then { h with realtime := true }
        else h) = { h with realtime := b } := by
      split
      · exact ⟨true, rfl⟩
      · exact ⟨h.realtime, rfl⟩
    simp only [hb]
    obtain ⟨hv, hw⟩ := MissingMessages.push_spec hn { h with realtime := b } n.clock
      n.options.ihaveTimeout
    refine .still hv rfl rfl (List.append_nil _).symm (fun _ => rfl) (by simp)
      (fun _ hx => .inl hx) (fun a ha => .inl ?_) ?_ ?_
    · rw [hw]
      exact Multiset.mem_cons_of_mem ha
    · intro i hi
      rcases MissingMessages.recorded_push.mp hi with rfl | hi
      · exact .inr ⟨⟨h, rfl, rfl⟩, hh⟩
      · exact .inl hi
    · rintro m hm
      cases hm
      exact .inr ⟨_, b, hw ▸ Multiset.mem_cons_self _ _⟩

lemma handleGraft_effect (hn : n.missings.Valid) (g : GraftMessage N I)
    (hs : g.sender ∈ n.neighbours) :
    ∃ acts, Effect (some (.graft g)) n (n.handleGraft g) acts := by
  have hpeers : ∀ as : List (Action N I P), ∀ x ∈ (n.toEager g.sender).neighbours,
      x ∈ n.neighbours ∨ ∀ i, n.Holds i → Announced as n.id x i :=
    fun _ x hx => .inl (neighbours_toEager hs ▸ hx)
  have hempty : (∀ i, g.messageId = some i → ¬ n.Holds i) →
      Effect (some (.graft g)) n (n.toEager g.sender) [] := by
    intro hno
    refine .still hn rfl rfl (List.append_nil _).symm (fun _ => rfl) (by simp)
      (hpeers _) (fun _ ha => .inl ha) (fun _ hi => .inl hi) ?_
    rintro m hm
    cases hm
    exact fun i hi hh => absurd hh (hno i hi)
  unfold handleGraft
  cases hid : g.messageId with
  | none => exact ⟨[], hempty (by simp [hid])⟩
  | some i =>
    cases hget : n.messages.get i with
    | none =>
      simp only [toEager, hget]
      refine ⟨[], hempty ?_⟩
      rintro j hj ⟨p, hp⟩
      cases hid.symm.trans hj
      cases hget.symm.trans hp
    | some p =>
      simp only [toEager, hget]
      refine ⟨[.send g.sender (.gossip ⟨n.id, ⟨i, p⟩, g.round⟩)], .still hn rfl rfl rfl
        (fun _ => rfl) ?_ (hpeers _) (fun _ ha => .inl ha) (fun _ hi => .inl hi) ?_⟩
      · intro a ha
        rw [List.mem_singleton] at ha
        refine ⟨_, _, ha, rfl, ?_, by simp⟩
        rintro g' hg'
        cases hg'
        exact hget
      · rintro m hm
        cases hm
        intro j hj _
        cases hid.symm.trans hj
        exact ⟨p, g.round, List.mem_singleton.mpr rfl⟩

lemma handleProtocolMessage_effect (hn : n.missings.Valid) (m : ProtocolMessage N I P)
    (hs : m.sender ∈ n.neighbours) :
    ∃ acts, Effect (some m) n (n.handleProtocolMessage m).2 acts := by
  rw [handleProtocolMessage.eq_def, if_pos (isKnownNode_iff.mpr hs)]
  cases m with
  | gossip g => exact handleGossip_effect hn g hs
  | ihave h => exact ⟨[], handleIhave_effect hn h⟩
  | graft g => exact handleGraft_effect hn g hs
  | prune p =>
    refine ⟨[], .still hn rfl rfl (List.append_nil _).symm (fun _ => rfl) (by simp)
      (fun x hx => .inl (neighbours_toLazy hs ▸ hx)) (fun _ ha => .inl ha)
      (fun _ hi => .inl hi) ?_⟩
    rintro m hm
    cases hm
    trivial

lemma handleProtocolMessage_unknown {m : ProtocolMessage N I P} (hs : m.sender ∉ n.neighbours) :
    n.handleProtocolMessage m = (false, n) := if_neg (mt isKnownNode_iff.mp hs)

lemma handleNeighborUp_effect (hn : n.missings.Valid) (x : N) :
    ∃ acts, Effect none n (n.handleNeighborUp x) acts := by
  by_cases hk : x ∈ n.neighbours ∨ n.id = x
  · rw [handleNeighborUp, if_pos (by rwa [isKnownNode_iff])]
    exact ⟨[], .refl hn⟩
  · rw [not_or] at hk
    rw [handleNeighborUp_of_new hk.1 hk.2]
    refine ⟨_, .still hn rfl rfl rfl (fun _ => rfl) ?_ ?_ (fun _ ha => .inl ha)
      (fun _ hi => .inl hi) (fun _ hm => by simp at hm)⟩
    · intro a ha
      obtain ⟨i, hi, rfl⟩ := List.mem_map.mp ha
      refine ⟨_, _, rfl, rfl, by simp, ?_⟩
      rintro h hh
      cases hh
      exact HashMap.mem_keys.mp hi
    · intro y hy
      simp only [mem_neighbours, HashSet.mem_insert, or_assoc] at hy
      rcases hy with rfl | hy
      · refine .inr fun i hi => .inr ⟨0, false, List.mem_map.mpr ⟨i, HashMap.mem_keys.mpr hi, rfl⟩⟩
      · exact .inl (mem_neighbours.mpr hy)

omit [DecidableEq I] in
lemma neighbours_dropPeer (x : N) : (n.dropPeer x).neighbours = n.neighbours.erase x := by
  ext y
  simp only [dropPeer, Finset.mem_erase, mem_neighbours, HashSet.mem_remove]
  tauto

lemma dropPeer_effect (hn : n.missings.Valid) (x : N) : Effect none n (n.dropPeer x) [] :=
  .still hn rfl rfl (List.append_nil _).symm (fun _ => rfl) (by simp)
    (fun y hy => by
      rw [neighbours_dropPeer] at hy
      exact .inl (Finset.mem_of_mem_erase hy))
    (fun _ ha => .inl ha) (fun _ hi => .inl hi) (fun _ hm => by simp at hm)

lemma handleNeighborDown_effect (hn : n.missings.Valid) (x : N) :
    Yields (n.handleNeighborDown x) (fun m => (∃ acts, Effect none n m acts) ∧
      m.neighbours = n.neighbours.erase x) := by
  have hdown := dropPeer_effect hn x
  refine (handleNeighborDown_spec hn x).mono fun m hm => ?_
  cases hm with
  | unknown hx => exact ⟨⟨[], .refl hn⟩, (Finset.erase_eq_of_notMem hx).symm⟩
  | eager _ _ => exact ⟨⟨[], hdown⟩, neighbours_dropPeer x⟩
  | grafted _ hk =>
    obtain ⟨_, _, hk⟩ := hk.drained
    refine ⟨⟨_, hdown.trans (.of_drained hk) fun y hy => hk.neighbours_eq ▸ hy⟩, ?_⟩
    rw [hk.neighbours_eq, neighbours_dropPeer]

lemma neighbours_handleProtocolMessage (m : ProtocolMessage N I P) :
    (n.handleProtocolMessage m).2.neighbours = n.neighbours := by
  by_cases hs : m.sender ∈ n.neighbours
  · rw [handleProtocolMessage.eq_def, if_pos (isKnownNode_iff.mpr hs)]
    cases m with
    | gossip g =>
      by_cases h : n.Holds g.message.id
      · dsimp only
        rw [handleGossip_of_holds h]
        exact neighbours_toLazy hs
      · dsimp only
        rw [handleGossip_of_fresh h]
        exact neighbours_toEager hs
    | ihave h =>
      dsimp only [handleIhave]
      split <;> rfl
    | graft g =>
      dsimp only [handleGraft]
      split
      · split <;> exact neighbours_toEager hs
      · exact neighbours_toEager hs
    | prune p => exact neighbours_toLazy hs
  · rw [handleProtocolMessage_unknown hs]

lemma neighbours_broadcastMessage (m : Message I P) :
    (n.broadcastMessage m).neighbours = n.neighbours := by
  rw [broadcastMessage_eq]
  rfl

omit [DecidableEq I] in
@[simp] lemma neighbours_reorder (i j : ℕ) : (n.reorder i j).neighbours = n.neighbours := by
  ext x
  simp [reorder]

omit [DecidableEq I] in
lemma neighbours_handleNeighborUp {x : N} (h : n.id ≠ x) :
    (n.handleNeighborUp x).neighbours = insert x n.neighbours := by
  by_cases hk : x ∈ n.neighbours
  · rw [handleNeighborUp, if_pos (.inl (isKnownNode_iff.mpr hk)), Finset.insert_eq_of_mem hk]
  · rw [handleNeighborUp_of_new hk h]
    ext y
    simp [or_assoc]

lemma pollAction_effect (hn : n.missings.Valid) :
    Yields n.pollAction (fun r => ∃ m acts, Effect none n m acts ∧ m.neighbours = n.neighbours ∧
      r = (m.actions.head?, { m with actions := m.actions.tail })) := by
  refine (handleExpiration_spec hn).bind ?_
  rintro m ⟨⟨spent, hm, _⟩, _⟩
  exact .ok ⟨m, _, .of_drained hm, hm.neighbours_eq, rfl⟩

end Node

end QuicP2p.Plumtree
