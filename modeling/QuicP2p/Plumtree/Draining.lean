import QuicP2p.Plumtree.Node

/-! The loops of a node that ask for the messages whose announcements have expired. -/

namespace QuicP2p.Plumtree

open Library

variable {N I P : Type} [DecidableEq N]

namespace Node

/-- The peers of a node, eager and lazy. -/
def neighbours (n : Node N I P) : Finset N :=
  n.eagerPushPeers.toList.toFinset ∪ n.lazyPushPeers.toList.toFinset

@[simp] lemma mem_neighbours {n : Node N I P} {x : N} :
    x ∈ n.neighbours ↔ x ∈ n.eagerPushPeers ∨ x ∈ n.lazyPushPeers := by
  simp [neighbours]

@[simp] lemma isKnownNode_iff {n : Node N I P} {x : N} :
    n.isKnownNode x = true ↔ x ∈ n.neighbours := by
  simp [isKnownNode]

@[simp] lemma mem_toEager {n : Node N I P} {x y : N} :
    (y ∈ (n.toEager x).eagerPushPeers ↔ y = x ∨ y ∈ n.eagerPushPeers) ∧
      (y ∈ (n.toEager x).lazyPushPeers ↔ y ≠ x ∧ y ∈ n.lazyPushPeers) := by
  simp [toEager]

/-- The requests for some announced messages, each to the peer that announced it. -/
def grafts (n : Node N I P) (spent : List (NodeTime × IhaveMessage N I)) : List (Action N I P) :=
  (spent.filter (fun a => a.2.sender ∈ n.neighbours)).map
    (fun a => .send a.2.sender (.graft ⟨n.id, some a.2.messageId, a.2.round⟩))

lemma mem_grafts {n : Node N I P} {spent : List (NodeTime × IhaveMessage N I)}
    {a : Action N I P} : a ∈ n.grafts spent ↔ ∃ s ∈ spent, s.2.sender ∈ n.neighbours ∧
      a = .send s.2.sender (.graft ⟨n.id, some s.2.messageId, s.2.round⟩) := by
  simp only [grafts, List.mem_map, List.mem_filter, decide_eq_true_eq, and_assoc]
  exact exists_congr fun s => and_congr_right fun _ => and_congr_right fun _ => eq_comm

variable [DecidableEq I]

/-- The announcements of `spent` have left the table, and were requested where their sender is
still a peer. -/
structure Drained (n n' : Node N I P) (spent : List (NodeTime × IhaveMessage N I)) : Prop where
  id_eq : n'.id = n.id
  options_eq : n'.options = n.options
  messages_eq : n'.messages = n.messages
  clock_eq : n'.clock = n.clock
  actions_eq : n'.actions = n.actions ++ n.grafts spent
  valid : n'.missings.Valid
  waiting_eq : n.missings.waiting = ↑spent + n'.missings.waiting
  recorded : ∀ i, n'.missings.Recorded i → n.missings.Recorded i
  eager : ∀ x, x ∈ n'.eagerPushPeers ↔
    x ∈ n.eagerPushPeers ∨ x ∈ n.neighbours ∧ ∃ a ∈ spent, a.2.sender = x
  lazy : ∀ x, x ∈ n'.lazyPushPeers ↔ x ∈ n.lazyPushPeers ∧ ¬ ∃ a ∈ spent, a.2.sender = x

namespace Drained

variable {n m k : Node N I P} {spent : List (NodeTime × IhaveMessage N I)}

lemma neighbours_eq (h : Drained n m spent) : m.neighbours = n.neighbours := by
  ext x
  have he := h.eager x
  have hl := h.lazy x
  simp only [mem_neighbours] at he ⊢
  rw [he, hl]
  by_cases hs : ∃ a ∈ spent, a.2.sender = x <;> simp only [hs] <;> tauto

lemma trans {spent' : List (NodeTime × IhaveMessage N I)} (h : Drained n m spent)
    (h' : Drained m k spent') : Drained n k (spent ++ spent') where
  id_eq := h'.id_eq.trans h.id_eq
  options_eq := h'.options_eq.trans h.options_eq
  messages_eq := h'.messages_eq.trans h.messages_eq
  clock_eq := h'.clock_eq.trans h.clock_eq
  actions_eq := by
    rw [h'.actions_eq, h.actions_eq, List.append_assoc]
    simp only [grafts, h.neighbours_eq, h.id_eq, List.filter_append, List.map_append]
  valid := h'.valid
  waiting_eq := by rw [h.waiting_eq, h'.waiting_eq, ← add_assoc, Multiset.coe_add]
  recorded i hi := h.recorded i (h'.recorded i hi)
  eager x := by
    rw [h'.eager, h.eager, h.neighbours_eq]
    simp only [List.mem_append, or_and_right, exists_or, and_or_left, or_assoc]
  lazy x := by
    rw [h'.lazy, h.lazy]
    simp only [List.mem_append, or_and_right, exists_or, not_or, and_assoc]

lemma nothing {missings : MissingMessages N I} (hv : missings.Valid)
    (hw : missings.waiting = n.missings.waiting)
    (hr : ∀ i, missings.Recorded i → n.missings.Recorded i) :
    Drained n { n with missings := missings } [] where
  id_eq := rfl
  options_eq := rfl
  messages_eq := rfl
  clock_eq := rfl
  actions_eq := (List.append_nil _).symm
  valid := hv
  waiting_eq := by simp [hw]
  recorded := hr
  eager x := by simp
  lazy x := by simp

lemma one {missings : MissingMessages N I} {t : NodeTime} {ihave : IhaveMessage N I}
    (hv : missings.Valid) (hw : n.missings.waiting = (t, ihave) ::ₘ missings.waiting)
    (hr : ∀ i, missings.Recorded i → n.missings.Recorded i) :
    Drained n ({ n with missings := missings }.sendGraft ihave).2 [(t, ihave)] := by
  have hsame : ({ n with missings := missings } : Node N I P).isKnownNode ihave.sender = true ↔
      ihave.sender ∈ n.neighbours := isKnownNode_iff
  by_cases hk : ihave.sender ∈ n.neighbours
  · have hg : n.grafts [(t, ihave)] =
        [.send ihave.sender (.graft ⟨n.id, some ihave.messageId, ihave.round⟩)] := by
      rw [grafts, List.filter_cons_of_pos (by simpa using hk)]
      rfl
    rw [sendGraft, if_pos (hsame.mpr hk)]
    exact {
      id_eq := rfl
      options_eq := rfl
      messages_eq := rfl
      clock_eq := rfl
      actions_eq := by rw [hg]; rfl
      valid := hv
      waiting_eq := by simpa [send, pushBack, toEager] using hw
      recorded := hr
      eager := by
        intro x
        have hk' : x = ihave.sender → x ∈ n.neighbours := fun hx => hx ▸ hk
        simp only [send, pushBack, toEager, HashSet.mem_insert, List.mem_singleton,
          exists_eq_left, eq_comm]
        tauto
      lazy := by simp [send, pushBack, toEager, eq_comm, and_comm] }
  · have hg : n.grafts [(t, ihave)] = [] := by
      rw [grafts, List.filter_cons_of_neg (by simpa using hk)]
      rfl
    rw [sendGraft, if_neg (fun h => hk (hsame.mp h))]
    have hk' : ∀ x, x ∈ n.neighbours → ihave.sender ≠ x := fun x hx he => hk (he ▸ hx)
    exact {
      id_eq := rfl
      options_eq := rfl
      messages_eq := rfl
      clock_eq := rfl
      actions_eq := by rw [hg, List.append_nil]
      valid := hv
      waiting_eq := by simpa using hw
      recorded := hr
      eager := by
        intro x
        have hx := hk' x
        simp only [List.mem_singleton, exists_eq_left]
        tauto
      lazy := by
        intro x
        have hx : x ∈ n.lazyPushPeers → ihave.sender ≠ x := fun hl =>
          hk' x (mem_neighbours.mpr (.inr hl))
        simp only [List.mem_singleton, exists_eq_left]
        tauto }

end Drained

variable {n : Node N I P}

lemma popExpired_spec (h : n.missings.Valid) (clock : Clock) :
    Yields (n.popExpired clock) (fun r => ∃ missings, r.2 = { n with missings := missings } ∧
      missings.Valid ∧ MissingMessages.Popped clock n.missings missings r.1 ∧
      n.missings.Inherits missings) := by
  refine (MissingMessages.popExpired_spec h clock).bind ?_
  rintro ⟨ihave, missings⟩ hr
  exact .ok ⟨missings, rfl, hr⟩

omit [DecidableEq I] in
@[simp] lemma missings_sendGraft (ihave : IhaveMessage N I) :
    (n.sendGraft ihave).2.missings = n.missings := by
  unfold sendGraft
  split <;> rfl

omit [DecidableEq I] in
@[simp] lemma clock_sendGraft (ihave : IhaveMessage N I) :
    (n.sendGraft ihave).2.clock = n.clock := by
  unfold sendGraft
  split <;> rfl

lemma handleExpirationLoop_spec {passes : ℕ} (h : n.missings.Valid)
    (hp : n.missings.waiting.card < passes) :
    Yields (handleExpirationLoop passes n) (fun k =>
      (∃ spent, Drained n k spent ∧ ∀ a ∈ spent, a.1 ≤ n.clock.now) ∧
        ∀ a ∈ k.missings.waiting, n.clock.now < a.1) := by
  induction passes generalizing n with
  | zero => omega
  | succ passes ih =>
    refine (popExpired_spec h n.clock).bind ?_
    rintro ⟨r, m⟩ ⟨missings, rfl, hv, hpop, hi⟩
    cases hpop with
    | nothing hw hlate =>
      exact .ok ⟨⟨[], Drained.nothing hv hw fun _ => hi.recorded, by simp⟩,
        fun a ha => hlate a (hw ▸ ha)⟩
    | @expired t ihave ht hw hmin =>
      have hcard : missings.waiting.card < passes := by
        rw [hw, Multiset.card_cons] at hp
        omega
      refine (ih (by simpa using hv) (by simpa using hcard)).mono ?_
      rintro k ⟨⟨spent, hk, hspent⟩, hlate⟩
      refine ⟨⟨_, (Drained.one hv hw fun _ => hi.recorded).trans hk, fun a ha => ?_⟩,
        fun a ha => by simpa using hlate a ha⟩
      rcases List.mem_append.mp ha with ha | ha
      · rw [List.mem_singleton.mp ha]
        exact ht
      · simpa using hspent a ha

omit [DecidableEq N] in
lemma waiting_card_lt : n.missings.waiting.card < n.missings.timeoutQueue.items.length + 1 :=
  Nat.lt_succ_of_le (List.length_filterMap_le _ _)

lemma handleExpiration_spec (h : n.missings.Valid) :
    Yields n.handleExpiration (fun k =>
      (∃ spent, Drained n k spent ∧ ∀ a ∈ spent, a.1 ≤ n.clock.now) ∧
        ∀ a ∈ k.missings.waiting, n.clock.now < a.1) :=
  handleExpirationLoop_spec h waiting_card_lt

/-- What the loop of a departure took from the table: announcements of strangers, and at most one
of a peer, at which it stopped. -/
structure Regrafted (n k : Node N I P) (taken : Option (NodeTime × IhaveMessage N I)) : Prop where
  drained : ∃ strange, (∀ a ∈ strange, a.2.sender ∉ n.neighbours) ∧
    Drained n k (strange ++ taken.toList)
  known : ∀ a ∈ taken, a.2.sender ∈ n.neighbours
  emptied : taken = none → k.missings.waiting = 0

lemma graftLoop_spec {passes : ℕ} (h : n.missings.Valid) (hp : n.missings.waiting.card < passes) :
    Yields (graftLoop passes n) (fun k => ∃ taken, Regrafted n k taken) := by
  induction passes generalizing n with
  | zero => omega
  | succ passes ih =>
    refine (popExpired_spec h .max).bind ?_
    rintro ⟨r, m⟩ ⟨missings, rfl, hv, hpop, hi⟩
    cases hpop with
    | nothing hw hlate =>
      refine .ok ⟨none, ⟨[], by simp, Drained.nothing hv hw fun _ => hi.recorded⟩, by simp,
        fun _ => ?_⟩
      refine Multiset.eq_zero_of_forall_notMem fun a ha => ?_
      exact not_top_lt (hlate a (hw ▸ ha))
    | @expired t ihave ht hw hmin =>
      have hone := Drained.one hv hw fun _ => hi.recorded
      have hcard : missings.waiting.card < passes := by
        rw [hw, Multiset.card_cons] at hp
        omega
      have hsent : (({ n with missings := missings } : Node N I P).sendGraft ihave).1 = true ↔
          ihave.sender ∈ n.neighbours := by
        rw [sendGraft]
        split
        next hk => exact iff_of_true rfl (isKnownNode_iff.mp hk)
        next hk => exact iff_of_false (by simp) (mt isKnownNode_iff.mpr hk)
      dsimp only
      split
      next hs =>
        exact .ok ⟨some (t, ihave), ⟨[], by simp, hone⟩, by simpa using hsent.mp hs, by simp⟩
      next hs =>
        refine (ih (by simpa using hv) (by simpa using hcard)).mono ?_
        rintro k ⟨taken, ⟨strange, hstrange, hk⟩, hknown, hempty⟩
        rw [hone.neighbours_eq] at hstrange hknown
        refine ⟨taken, ⟨(t, ihave) :: strange, ?_, hone.trans hk⟩, hknown, hempty⟩
        intro a ha
        rcases List.mem_cons.mp ha with rfl | ha
        · exact mt hsent.mpr hs
        · exact hstrange a ha

/-- What the departure of a node can do. -/
inductive Departed (n : Node N I P) (x : N) : Node N I P → Prop
  | unknown (hx : x ∉ n.neighbours) : Departed n x n
  | eager (hx : x ∈ n.neighbours) {y : N} (hy : y ∈ (n.dropPeer x).eagerPushPeers) :
      Departed n x (n.dropPeer x)
  | grafted (hx : x ∈ n.neighbours) {k : Node N I P} {taken : Option (NodeTime × IhaveMessage N I)}
      (hk : Regrafted (n.dropPeer x) k taken) : Departed n x k

lemma handleNeighborDown_spec (h : n.missings.Valid) (x : N) :
    Yields (n.handleNeighborDown x) (Departed n x) := by
  unfold handleNeighborDown
  split
  next hk =>
    have hx := isKnownNode_iff.mp hk
    dsimp only
    split
    next he =>
      refine (graftLoop_spec (n := n.dropPeer x) h waiting_card_lt).mono ?_
      rintro k ⟨taken, hk⟩
      exact .grafted hx hk
    next he =>
      rw [HashSet.isEmpty_iff] at he
      push Not at he
      obtain ⟨y, hy⟩ := he
      exact .ok (.eager hx hy)
  next hk => exact .ok (.unknown (mt isKnownNode_iff.mpr hk))

end Node

end QuicP2p.Plumtree
