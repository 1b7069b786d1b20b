import QuicP2p.Library.Outcome

/-! Loops without a bound on their passes, and what their passes cost. -/

namespace QuicP2p.Library

variable {σ α : Type} {body : σ → ℕ → α ⊕ σ → Prop} {s : σ} {a : α} {k : ℕ}

/-- The loop ends, and its passes cost `k`. A pass has a cost and either a result, with which the
loop ends, or the state of the next pass. -/
inductive Loop (body : σ → ℕ → α ⊕ σ → Prop) : σ → ℕ → α → Prop
  | done {s : σ} {k : ℕ} {a : α} (h : body s k (.inl a)) : Loop body s k a
  | again {s t : σ} {k j : ℕ} {a : α} (h : body s k (.inr t)) (hl : Loop body t j a) :
      Loop body s (k + j) a

/-- What a pass from `s` owes to a proof that the loop ends: a result, or a state that keeps the
invariant `P` at a smaller measure. -/
inductive Progress (body : σ → ℕ → α ⊕ σ → Prop) (P : σ → Prop) (Q : σ → ℕ → α → Prop)
    (measure : σ → ℕ) (s : σ) : Prop
  | done {k : ℕ} {a : α} (h : body s k (.inl a)) (hq : Q s k a) : Progress body P Q measure s
  | again {k : ℕ} {t : σ} (h : body s k (.inr t)) (ht : P t) (hlt : measure t < measure s)
      (hq : ∀ j a, Q t j a → Q s (k + j) a) : Progress body P Q measure s

/-- The loop rule: a loop whose passes all make progress ends. -/
lemma Loop.of_progress {P : σ → Prop} {Q : σ → ℕ → α → Prop} {measure : σ → ℕ}
    (hpass : ∀ s, P s → Progress body P Q measure s) (hs : P s) :
    ∃ k a, Loop body s k a ∧ Q s k a := by
  induction hm : measure s using Nat.strong_induction_on generalizing s with
  | _ m ih =>
    cases hpass s hs with
    | done h hq => exact ⟨_, _, .done h, hq⟩
    | again h ht hlt hq =>
      obtain ⟨j, a, hl, ha⟩ := ih _ (hm ▸ hlt) ht rfl
      exact ⟨_, a, .again h hl, hq j a ha⟩

end QuicP2p.Library
