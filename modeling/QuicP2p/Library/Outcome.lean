import Mathlib

/-! Total correctness of computations that return a value or stop with an error. -/

namespace QuicP2p.Library

variable {ε α β : Type}

/-- The computation returns a value, and the value satisfies `P`. -/
def Yields (x : Except ε α) (P : α → Prop) : Prop := ∃ a, x = .ok a ∧ P a

namespace Yields

variable {x : Except ε α} {P Q : α → Prop} {a : α}

lemma ok (h : P a) : Yields (.ok a : Except ε α) P := ⟨a, rfl, h⟩

lemma pure (h : P a) : Yields (Pure.pure a : Except ε α) P := ⟨a, rfl, h⟩

lemma bind {f : α → Except ε β} {Q : β → Prop} (h : Yields x P)
    (hf : ∀ a, P a → Yields (f a) Q) : Yields (x >>= f) Q := by
  obtain ⟨a, rfl, ha⟩ := h
  exact hf a ha

lemma mono (h : Yields x P) (hpq : ∀ a, P a → Q a) : Yields x Q := by
  obtain ⟨a, ha, hp⟩ := h
  exact ⟨a, ha, hpq a hp⟩

lemma of_ok (h : Yields x P) (ha : x = .ok a) : P a := by
  obtain ⟨b, hb, hp⟩ := h
  cases hb.symm.trans ha
  exact hp

lemma returns (h : Yields x P) : ∃ a, x = .ok a := by
  obtain ⟨a, ha, _⟩ := h
  exact ⟨a, ha⟩

end Yields

@[simp] lemma ok_bind (a : α) (f : α → Except ε β) : (.ok a : Except ε α) >>= f = f a := rfl

lemma bind_eq_ok {x : Except ε α} {f : α → Except ε β} {b : β} :
    x >>= f = .ok b ↔ ∃ a, x = .ok a ∧ f a = .ok b := by
  cases x with
  | error e =>
    refine ⟨fun h => (by cases h), ?_⟩
    rintro ⟨_, h, _⟩
    cases h
  | ok a =>
    refine ⟨fun h => ⟨a, rfl, h⟩, ?_⟩
    rintro ⟨_, ha, h⟩
    cases ha
    exact h

end QuicP2p.Library
