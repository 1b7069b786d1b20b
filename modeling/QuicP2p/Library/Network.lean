import QuicP2p.Library.Random

/-! Networks of machines that exchange messages over an unordered transport. -/

namespace QuicP2p.Library

/-- What one party of a network does when it is called, when a message reaches it and when its
next action is taken from it, which may be a message to send. -/
structure Protocol (ε I S M C : Type) where
  call : S → C → Except ε S
  receive : S → M → Except ε S
  poll : S → Except ε (Option (I × M) × S)

structure Network (I S M : Type) where
  node : I → S
  flight : List (I × M)

/-- Messages in flight are named by their place: they arrive in any order, and may arrive more
than once or not at all. -/
inductive Move (I C : Type)
  | call (p : I) (c : C)
  | poll (p : I)
  | deliver (i : ℕ)
  | duplicate (i : ℕ)
  | lose (i : ℕ)
  deriving DecidableEq

/-- The party that a move makes act of its own. -/
def Move.actor {I C : Type} : Move I C → Option I
  | .call p _ => some p
  | .poll p => some p
  | _ => none

namespace Network

variable {ε I S M C : Type} [DecidableEq I]

def update (w : Network I S M) (p : I) (s : S) : Network I S M :=
  { w with node := Function.update w.node p s }

@[simp] lemma flight_update (w : Network I S M) (p : I) (s : S) :
    (w.update p s).flight = w.flight := rfl

@[simp] lemma node_update_self (w : Network I S M) (p : I) (s : S) :
    (w.update p s).node p = s := Function.update_self _ _ _

lemma node_update_of_ne (w : Network I S M) {p q : I} (h : q ≠ p) (s : S) :
    (w.update p s).node q = w.node q := Function.update_of_ne h _ _

lemma node_update (w : Network I S M) (p q : I) (s : S) :
    (w.update p s).node q = if q = p then s else w.node q := by
  split
  next h => rw [h, node_update_self]
  next h => exact node_update_of_ne w h s

lemma forall_update {Q : I → S → Prop} {ids : Finset I} {w : Network I S M} {p : I} {s : S}
    (h : ∀ q ∈ ids, Q q (w.node q)) (hs : Q p s) : ∀ q ∈ ids, Q q ((w.update p s).node q) := by
  intro q hq
  rw [node_update]
  split
  next hqp => exact hqp ▸ hs
  next => exact h q hq

lemma forall_moved {Q : I → S → Prop} {w w' : Network I S M} {p : I}
    (hother : ∀ q, q ≠ p → w'.node q = w.node q) (hp : Q p (w'.node p))
    (h : ∀ q, q ≠ p → Q q (w.node q)) : ∀ q, Q q (w'.node q) := by
  intro q
  by_cases hqp : q = p
  · exact hqp ▸ hp
  · rw [hother q hqp]
    exact h q hqp

lemma sum_moved {β : Type} [AddCommMonoid β] (F : S → β) {ids : Finset I} {w w' : Network I S M}
    {p : I} (hp : p ∈ ids) (hother : ∀ q, q ≠ p → w'.node q = w.node q) :
    ∑ q ∈ ids, F (w'.node q) + F (w.node p) = ∑ q ∈ ids, F (w.node q) + F (w'.node p) := by
  have hrest : ∑ q ∈ ids.erase p, F (w'.node q) = ∑ q ∈ ids.erase p, F (w.node q) :=
    Finset.sum_congr rfl fun q hq => by rw [hother q (Finset.ne_of_mem_erase hq)]
  rw [← Finset.add_sum_erase ids (fun q => F (w'.node q)) hp,
    ← Finset.add_sum_erase ids (fun q => F (w.node q)) hp, hrest]
  abel

@[simp] lemma update_node (w : Network I S M) (p : I) : w.update p (w.node p) = w := by
  rw [update, Function.update_eq_self]

/-- A message whose destination is no member of the network is discarded. -/
def receive (P : Protocol ε I S M C) (ids : Finset I) (w : Network I S M) (d : I) (m : M) :
    Except ε (Network I S M) :=
  if d ∈ ids then do
    let s ← P.receive (w.node d) m
    .ok (w.update d s)
  else .ok w

def step (P : Protocol ε I S M C) (ids : Finset I) (w : Network I S M) :
    Move I C → Except ε (Network I S M)
  | .call p c =>
    if p ∈ ids then do
      let s ← P.call (w.node p) c
      .ok (w.update p s)
    else .ok w
  | .poll p =>
    if p ∈ ids then do
      let (out, s) ← P.poll (w.node p)
      .ok { w.update p s with flight := w.flight ++ out.toList }
    else .ok w
  | .deliver i =>
    match w.flight[i]? with
    | some (d, m) => receive P ids { w with flight := w.flight.eraseIdx i } d m
    | none => .ok w
  | .duplicate i =>
    match w.flight[i]? with
    | some (d, m) => receive P ids w d m
    | none => .ok w
  | .lose i => .ok { w with flight := w.flight.eraseIdx i }

/-- What a step of the network changes. -/
inductive Change (P : Protocol ε I S M C) (ids : Finset I) (w : Network I S M) :
    Move I C → Network I S M → Prop
  | idle {mv : Move I C} (h : ∀ p ∈ mv.actor, p ∉ ids) : Change P ids w mv w
  | called {p : I} {c : C} {s : S} (hp : p ∈ ids) (h : P.call (w.node p) c = .ok s) :
      Change P ids w (.call p c) (w.update p s)
  | polled {p : I} {out : Option (I × M)} {s : S} (hp : p ∈ ids)
      (h : P.poll (w.node p) = .ok (out, s)) :
      Change P ids w (.poll p) { w.update p s with flight := w.flight ++ out.toList }
  | delivered {i : ℕ} {d : I} {m : M} {s : S} {rest : List (I × M)} (hd : d ∈ ids)
      (hf : w.flight.Perm ((d, m) :: rest)) (h : P.receive (w.node d) m = .ok s) :
      Change P ids w (.deliver i) { w.update d s with flight := rest }
  | duplicated {i : ℕ} {d : I} {m : M} {s : S} (hd : d ∈ ids) (hm : (d, m) ∈ w.flight)
      (h : P.receive (w.node d) m = .ok s) : Change P ids w (.duplicate i) (w.update d s)
  | discarded {i : ℕ} {d : I} {m : M} {rest : List (I × M)} (hd : d ∉ ids)
      (hf : w.flight.Perm ((d, m) :: rest)) :
      Change P ids w (.deliver i) { w with flight := rest }
  | lost {i : ℕ} {rest : List (I × M)} (hf : rest.Sublist w.flight) :
      Change P ids w (.lose i) { w with flight := rest }

lemma change_of_step {P : Protocol ε I S M C} {ids : Finset I} {w w' : Network I S M}
    {mv : Move I C} (h : step P ids w mv = .ok w') : Change P ids w mv w' := by
  cases mv with
  | call p c =>
    simp only [step] at h
    split_ifs at h with hp
    · obtain ⟨s, hs, h⟩ := bind_eq_ok.mp h
      cases h
      exact .called hp hs
    · cases h
      exact .idle (by simpa [Move.actor] using hp)
  | poll p =>
    simp only [step] at h
    split_ifs at h with hp
    · obtain ⟨⟨out, s⟩, hs, h⟩ := bind_eq_ok.mp h
      cases h
      exact .polled hp hs
    · cases h
      exact .idle (by simpa [Move.actor] using hp)
  | deliver i =>
    simp only [step] at h
    split at h
    next d m hm =>
      obtain ⟨hi, hm⟩ := List.getElem?_eq_some_iff.mp hm
      have hf : w.flight.Perm ((d, m) :: w.flight.eraseIdx i) :=
        hm ▸ (List.getElem_cons_eraseIdx_perm hi).symm
      simp only [receive] at h
      split_ifs at h with hd
      · obtain ⟨s, hs, h⟩ := bind_eq_ok.mp h
        cases h
        exact .delivered hd hf hs
      · cases h
        exact .discarded hd hf
    next =>
      cases h
      exact .idle (by simp [Move.actor])
  | duplicate i =>
    simp only [step] at h
    split at h
    next d m hm =>
      simp only [receive] at h
      split_ifs at h with hd
      · obtain ⟨s, hs, h⟩ := bind_eq_ok.mp h
        cases h
        exact .duplicated hd (List.mem_of_getElem? hm) hs
      · cases h
        exact .idle (by simp [Move.actor])
    next =>
      cases h
      exact .idle (by simp [Move.actor])
  | lose i =>
    cases h
    exact .lost (List.eraseIdx_sublist _ _)

/-- The move takes the message to its destination. -/
def Arrival (w : Network I S M) (mv : Move I C) (d : I) (m : M) : Prop :=
  ∃ i, (mv = .deliver i ∨ mv = .duplicate i) ∧ w.flight[i]? = some (d, m)

section Arrival

variable {P : Protocol ε I S M C} {ids : Finset I} {w w' : Network I S M} {mv : Move I C} {d : I}
  {m : M}

lemma receive_of_mem (hd : d ∈ ids) (h : receive P ids w d m = .ok w') :
    P.receive (w.node d) m = .ok (w'.node d) := by
  rw [receive, if_pos hd] at h
  obtain ⟨s, hs, h⟩ := bind_eq_ok.mp h
  cases h
  rw [hs, node_update_self]

lemma flight_of_receive (h : receive P ids w d m = .ok w') : w'.flight = w.flight := by
  simp only [receive] at h
  split_ifs at h with hd
  · obtain ⟨s, _, h⟩ := bind_eq_ok.mp h
    cases h
    rfl
  · cases h
    rfl

lemma Arrival.receive (h : Arrival w mv d m) (hd : d ∈ ids) (hs : step P ids w mv = .ok w') :
    P.receive (w.node d) m = .ok (w'.node d) := by
  obtain ⟨i, rfl | rfl, hi⟩ := h
  · simp only [step, hi] at hs
    exact receive_of_mem (w := { w with flight := w.flight.eraseIdx i }) hd hs
  · simp only [step, hi] at hs
    exact receive_of_mem hd hs

lemma mem_flight_of_step (hs : step P ids w mv = .ok w') (hmv : ∀ i, mv ≠ .lose i)
    (h : (d, m) ∈ w.flight) : (d, m) ∈ w'.flight ∨ Arrival w mv d m := by
  cases mv with
  | deliver i =>
    by_cases hi : w.flight[i]? = some (d, m)
    · exact .inr ⟨i, .inl rfl, hi⟩
    · refine .inl ?_
      simp only [step] at hs
      split at hs
      next =>
        rw [flight_of_receive hs]
        obtain ⟨j, hj⟩ := List.mem_iff_getElem?.mp h
        refine List.mem_eraseIdx_iff_getElem?.mpr ⟨j, ?_, hj⟩
        rintro rfl
        exact hi hj
      next =>
        cases hs
        exact h
  | lose i => exact absurd rfl (hmv i)
  | call p c =>
    cases change_of_step hs with
    | idle => exact .inl h
    | called => exact .inl h
  | poll p =>
    cases change_of_step hs with
    | idle => exact .inl h
    | polled => exact .inl (List.mem_append_left _ h)
  | duplicate i =>
    cases change_of_step hs with
    | idle => exact .inl h
    | duplicated => exact .inl h

end Arrival

section Transit

variable (queue : S → Multiset (I × M)) (ids : Finset I)

/-- The messages on their way: those in flight and those that wait in the queues of members. -/
def transit (w : Network I S M) : Multiset (I × M) := ↑w.flight + ∑ p ∈ ids, queue (w.node p)

variable {queue ids}

omit [DecidableEq I] in
lemma mem_transit {w : Network I S M} {e : I × M} :
    e ∈ transit queue ids w ↔ e ∈ w.flight ∨ ∃ p ∈ ids, e ∈ queue (w.node p) := by
  simp [transit, Multiset.mem_sum]

/-- One member moves: it uses up some messages and brings new ones. -/
lemma transit_update {w : Network I S M} {p : I} (hp : p ∈ ids) {s : S} {f : List (I × M)}
    {used new : Multiset (I × M)} (h : used + (↑f + queue s) = ↑w.flight + queue (w.node p) + new) :
    used + transit queue ids { w.update p s with flight := f } = transit queue ids w + new := by
  have hsum : ∀ v : Network I S M, ∑ q ∈ ids, queue (v.node q) =
      queue (v.node p) + ∑ q ∈ ids.erase p, queue (v.node q) :=
    fun v => (Finset.add_sum_erase ids (fun q => queue (v.node q)) hp).symm
  have hrest : ∑ q ∈ ids.erase p, queue ((w.update p s).node q) =
      ∑ q ∈ ids.erase p, queue (w.node q) :=
    Finset.sum_congr rfl fun q hq => by rw [node_update_of_ne w (Finset.ne_of_mem_erase hq)]
  calc used + transit queue ids { w.update p s with flight := f }
      = used + (↑f + queue s) + ∑ q ∈ ids.erase p, queue (w.node q) := by
        rw [transit]
        change used + (↑f + ∑ q ∈ ids, queue ((w.update p s).node q)) = _
        rw [hsum (w.update p s), hrest, node_update_self, add_assoc, add_assoc]
    _ = transit queue ids w + new := by
        rw [h, transit, hsum w]
        abel

section

variable {β : Type} {a b : β} {r t new : Multiset β}

/-- What is there after `a` was exchanged for `new` was there before, or is new. -/
lemma mem_of_exchange (h : {a} + t = r + new) (hb : b ∈ t) : b ∈ r ∨ b ∈ new :=
  Multiset.mem_add.mp (h ▸ Multiset.mem_add.mpr (.inr hb))

lemma countP_of_exchange {p : β → Prop} [DecidablePred p] (h : {a} + t = r + new) :
    t.countP p + (if p a then 1 else 0) = r.countP p + new.countP p := by
  have hc := congrArg (Multiset.countP p) h
  rwa [Multiset.countP_add, Multiset.countP_add, add_comm, ← Multiset.cons_zero,
    Multiset.countP_cons, Multiset.countP_zero, zero_add] at hc

end

omit [DecidableEq I] in
lemma transit_le {w : Network I S M} {f : List (I × M)}
    (h : (f : Multiset (I × M)) ≤ ↑w.flight) :
    transit queue ids { w with flight := f } ≤ transit queue ids w := add_le_add_left h _

end Transit

end Network

end QuicP2p.Library
