import QuicP2p.Library.Runs

/-! Computations that stop with an error under a condition, and otherwise return a value. -/

namespace QuicP2p.Library

variable {ε α β σ ι : Type}

/-- The computation stops with an error if `c` holds. Otherwise it returns a value that
satisfies `P`. -/
structure StopsIf (c : Prop) (x : Except ε α) (P : α → Prop) : Prop where
  stops : c → ∃ e, x = .error e
  yields : ¬ c → Yields x P

namespace StopsIf

variable {c d : Prop} {x : Except ε α} {P Q : α → Prop}

lemma of_yields (h : Yields x P) (hc : ¬ c) : StopsIf c x P := ⟨fun h => absurd h hc, fun _ => h⟩

lemma congr (h : StopsIf c x P) (hcd : c ↔ d) : StopsIf d x P :=
  ⟨fun hd => h.stops (hcd.mpr hd), fun hd => h.yields (mt hcd.mp hd)⟩

lemma mono (h : StopsIf c x P) (hpq : ∀ a, P a → Q a) : StopsIf c x Q :=
  ⟨h.stops, fun hc => (h.yields hc).mono hpq⟩

lemma of_ok {a : α} (h : StopsIf c x P) (ha : x = .ok a) : P a := by
  by_cases hc : c
  · obtain ⟨e, he⟩ := h.stops hc
    cases he.symm.trans ha
  · exact (h.yields hc).of_ok ha

lemma bind {f : α → Except ε β} {Q : β → Prop} (h : StopsIf c x P)
    (hf : ∀ a, ¬ c → P a → StopsIf d (f a) Q) : StopsIf (c ∨ d) (x >>= f) Q where
  stops hcd := by
    by_cases hc : c
    · obtain ⟨e, rfl⟩ := h.stops hc
      exact ⟨e, rfl⟩
    · obtain ⟨a, rfl, ha⟩ := h.yields hc
      exact (hf a hc ha).stops (hcd.resolve_left hc)
  yields hcd := by
    rw [not_or] at hcd
    obtain ⟨a, rfl, ha⟩ := h.yields hcd.1
    exact (hf a hcd.1 ha).yields hcd.2

lemma after {f : α → Except ε β} {Q : β → Prop} (h : Yields x P)
    (hf : ∀ a, P a → StopsIf c (f a) Q) : StopsIf c (x >>= f) Q := by
  obtain ⟨a, rfl, ha⟩ := h
  exact hf a ha

lemma andThen {f : α → Except ε β} {Q : β → Prop} (h : StopsIf c x P)
    (hf : ∀ a, P a → Yields (f a) Q) : StopsIf c (x >>= f) Q :=
  (h.bind fun a _ ha => of_yields (hf a ha) not_false).congr (by rw [or_false])

end StopsIf

section follow

variable {step : σ → ι → Except ε σ} {s t : σ} {i : ι}

lemma follow_cons_eq_ok (ht : step s i = .ok t) {is : List ι} {r : List (Taken σ ι) × σ} :
    follow step s (i :: is) = .ok r ↔
      ∃ q, follow step t is = .ok q ∧ (⟨s, i, t⟩ :: q.1, q.2) = r := by
  rw [follow, ht, ok_bind, bind_eq_ok]
  simp

lemma follow_returns_iff {Inv : σ → Prop} {c : σ → ι → Prop}
    (hstep : ∀ s i, Inv s → StopsIf (c s i) (step s i) Inv) (hs : Inv s) (is : List ι) :
    (∃ r, follow step s is = .ok r) ↔
      ∀ before i, before ++ [i] <+: is → ∀ r, follow step s before = .ok r → ¬ c r.2 i := by
  induction is generalizing s with
  | nil => exact ⟨fun _ before i hp => by simp at hp, fun _ => ⟨_, rfl⟩⟩
  | cons i is ih =>
    by_cases hc : c s i
    · obtain ⟨e, he⟩ := (hstep s i hs).stops hc
      constructor
      · rintro ⟨r, hr⟩
        rw [follow, he] at hr
        cases hr
      · intro h
        exact absurd hc (h [] i ⟨is, rfl⟩ _ rfl)
    · obtain ⟨t, ht, hInv⟩ := (hstep s i hs).yields hc
      have htail : (∃ r, follow step s (i :: is) = .ok r) ↔ ∃ q, follow step t is = .ok q := by
        constructor
        · rintro ⟨r, hr⟩
          obtain ⟨q, hq, _⟩ := (follow_cons_eq_ok ht).mp hr
          exact ⟨q, hq⟩
        · rintro ⟨q, hq⟩
          exact ⟨_, (follow_cons_eq_ok ht).mpr ⟨q, hq, rfl⟩⟩
      rw [htail, ih hInv]
      constructor
      · intro h before j hp r hr
        cases before with
        | nil =>
          cases hr
          obtain ⟨rfl, _⟩ := List.cons_prefix_cons.mp hp
          exact hc
        | cons k before =>
          obtain ⟨rfl, hrest⟩ := List.cons_prefix_cons.mp hp
          obtain ⟨q, hq, rfl⟩ := (follow_cons_eq_ok ht).mp hr
          exact h before j hrest q hq
      · intro h before j hp q hq
        apply h (i :: before) j (List.cons_prefix_cons.mpr ⟨rfl, hp⟩) (⟨s, i, t⟩ :: q.1, q.2)
        exact (follow_cons_eq_ok ht).mpr ⟨q, hq, rfl⟩

end follow

end QuicP2p.Library
