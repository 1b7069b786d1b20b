import QuicP2p.Library.Outcome

/-! Finite runs of a machine that reads one input at each step, with the steps they took. -/

namespace QuicP2p.Library

variable {ε σ ι : Type}

/-- One step of a run: the state before it, the input it read and the state it left. -/
structure Taken (σ ι : Type) where
  before : σ
  input : ι
  after : σ

inductive Run (step : σ → ι → Except ε σ) (s : σ) : List (Taken σ ι) → σ → Prop
  | start : Run step s [] s
  | next {tr : List (Taken σ ι)} {t u : σ} {i : ι} :
      Run step s tr t → step t i = .ok u → Run step s (tr ++ [⟨t, i, u⟩]) u

/-- The run on a list of inputs, computed. -/
def follow (step : σ → ι → Except ε σ) (s : σ) : List ι → Except ε (List (Taken σ ι) × σ)
  | [] => .ok ([], s)
  | i :: is => do
    let t ← step s i
    let (tr, u) ← follow step t is
    .ok (⟨s, i, t⟩ :: tr, u)

/-- The state in which the run on a list of inputs ends. -/
def reached (step : σ → ι → Except ε σ) (s : σ) (is : List ι) : σ :=
  ((follow step s is).toOption.map Prod.snd).getD s

namespace Run

variable {step : σ → ι → Except ε σ} {s t u : σ} {tr : List (Taken σ ι)}

lemma cons {i : ι} (hs : step s i = .ok t) (h : Run step t tr u) :
    Run step s (⟨s, i, t⟩ :: tr) u := by
  induction h with
  | start => exact .next .start hs
  | next _ he ih => exact .next ih he

lemma append {tr' : List (Taken σ ι)} (h : Run step s tr t) (h' : Run step t tr' u) :
    Run step s (tr ++ tr') u := by
  induction h' with
  | start => rwa [List.append_nil]
  | next _ he ih =>
    rw [← List.append_assoc]
    exact .next ih he

lemma of_follow (is : List ι) (h : follow step s is = .ok (tr, t)) : Run step s tr t := by
  induction is generalizing s tr with
  | nil =>
    cases h
    exact .start
  | cons i is ih =>
    obtain ⟨m, hm, h⟩ := bind_eq_ok.mp h
    obtain ⟨⟨tl, u⟩, hu, h⟩ := bind_eq_ok.mp h
    cases h
    exact cons hm (ih hu)

lemma inputs_of_follow {C : ι → Prop} (is : List ι) (h : follow step s is = .ok (tr, t))
    (hc : ∀ i ∈ is, C i) : ∀ e ∈ tr, C e.input := by
  induction is generalizing s tr with
  | nil =>
    cases h
    simp
  | cons i is ih =>
    obtain ⟨m, hm, h⟩ := bind_eq_ok.mp h
    obtain ⟨⟨tl, u⟩, hu, h⟩ := bind_eq_ok.mp h
    cases h
    intro e he
    rcases List.mem_cons.mp he with rfl | he
    · exact hc i List.mem_cons_self
    · exact ih hu (fun i hi => hc i (List.mem_cons_of_mem _ hi)) e he

lemma exists_of_follow {P : List (Taken σ ι) → σ → Prop} [∀ tr t, Decidable (P tr t)]
    (is : List ι) (h : (follow step s is).toOption.any fun r => P r.1 r.2) :
    ∃ tr t, Run step s tr t ∧ P tr t := by
  cases hf : follow step s is with
  | error e =>
    rw [hf] at h
    cases h
  | ok r =>
    rw [hf] at h
    exact ⟨r.1, r.2, of_follow is hf, of_decide_eq_true h⟩

lemma exists_of_reached (is : List ι) (h : (follow step s is).toOption.isSome) :
    ∃ tr, Run step s tr (reached step s is) := by
  cases hf : follow step s is with
  | error e =>
    rw [hf] at h
    cases h
  | ok r =>
    rw [reached, hf]
    exact ⟨r.1, of_follow is hf⟩

/-- The run lemma: what holds at the start and is kept by every step that meets `C`
holds after every run whose steps all meet `C`. -/
lemma invariant_of {P : σ → Prop} {C : Taken σ ι → Prop}
    (hstep : ∀ t i u, P t → step t i = .ok u → C ⟨t, i, u⟩ → P u)
    (h : Run step s tr t) (hs : P s) (hc : ∀ e ∈ tr, C e) : P t := by
  induction h with
  | start => exact hs
  | next _ he ih =>
    refine hstep _ _ _ (ih fun e he' => hc e ?_) he (hc _ ?_)
    · exact List.mem_append_left _ he'
    · simp

lemma invariant {P : σ → Prop} (hstep : ∀ t i u, P t → step t i = .ok u → P u)
    (h : Run step s tr t) (hs : P s) : P t :=
  h.invariant_of (C := fun _ => True) (fun t i u hp he _ => hstep t i u hp he) hs
    (fun _ _ => trivial)

lemma eq_of_nil (h : Run step s [] t) : t = s := by
  generalize hl : ([] : List (Taken σ ι)) = l at h
  cases h with
  | start => rfl
  | next => simp at hl

lemma unsnoc {e : Taken σ ι} (h : Run step s (tr ++ [e]) t) :
    Run step s tr e.before ∧ step e.before e.input = .ok e.after ∧ e.after = t := by
  generalize hl : tr ++ [e] = l at h
  cases h with
  | start => simp at hl
  | next hr hs =>
    obtain ⟨rfl, he⟩ := List.append_inj' hl rfl
    cases he
    exact ⟨hr, hs, rfl⟩

lemma to_before (h : Run step s tr t) {e : Taken σ ι} (he : e ∈ tr) :
    ∃ tr', Run step s tr' e.before ∧ step e.before e.input = .ok e.after ∧ tr' ⊆ tr := by
  induction h with
  | start => simp at he
  | next hr hs ih =>
    rcases List.mem_append.mp he with he | he
    · obtain ⟨tr', hr', hs', hsub⟩ := ih he
      exact ⟨tr', hr', hs', List.subset_append_of_subset_left _ hsub⟩
    · obtain rfl := List.mem_singleton.mp he
      exact ⟨_, hr, hs, List.subset_append_left _ _⟩

/-- The potential pays for each of the steps that count. -/
lemma count_le {P : σ → Prop} {C Q : Taken σ ι → Prop} [DecidablePred Q] {f : σ → ℕ}
    (hstep : ∀ t i u, P t → step t i = .ok u → C ⟨t, i, u⟩ →
      P u ∧ f u + (if Q ⟨t, i, u⟩ then 1 else 0) ≤ f t)
    (h : Run step s tr t) (hs : P s) (hc : ∀ e ∈ tr, C e) :
    P t ∧ f t + tr.countP (fun e => Q e) ≤ f s := by
  induction h with
  | start => exact ⟨hs, le_rfl⟩
  | @next tr t u i _ he ih =>
    obtain ⟨ht, hle⟩ := ih fun e he => hc e (List.mem_append_left _ he)
    obtain ⟨hu, hless⟩ := hstep t i u ht he (hc _ (by simp))
    refine ⟨hu, ?_⟩
    rw [List.countP_append, List.countP_singleton]
    simp only [decide_eq_true_eq]
    omega

/-- An invariant that also speaks of the steps taken so far. -/
lemma history {P : List (Taken σ ι) → σ → Prop}
    (hstep : ∀ tr t i u, P tr t → step t i = .ok u → P (tr ++ [⟨t, i, u⟩]) u)
    (h : Run step s tr t) (hs : P [] s) : P tr t := by
  induction h with
  | start => exact hs
  | next _ he ih => exact hstep _ _ _ _ ih he

end Run

end QuicP2p.Library
