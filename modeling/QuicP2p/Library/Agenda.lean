import QuicP2p.Library.Outcome

/-! Agendas of timed items, of which the earliest is taken first, and which are cancelled by key. -/

namespace QuicP2p.Library.Agenda

variable {τ κ α : Type}

/-- What happens to an agenda: an item is added for a time, the items of a key are cancelled, or
somebody looks for an item that is due. -/
inductive Event (τ κ α : Type)
  | add (time : τ) (item : α)
  | cancel (key : κ)
  | take (now : τ) (found : Option α)

namespace Event

def added : Event τ κ α → Multiset α
  | add _ a => {a}
  | cancel _ => 0
  | take _ _ => 0

def taken : Event τ κ α → Multiset α
  | add _ _ => 0
  | cancel _ => 0
  | take _ found => found.elim 0 ({·})

end Event

def added (es : List (Event τ κ α)) : Multiset α := (es.map Event.added).sum

def taken (es : List (Event τ κ α)) : Multiset α := (es.map Event.taken).sum

lemma added_append (es : List (Event τ κ α)) (e : Event τ κ α) :
    added (es ++ [e]) = added es + e.added := by
  simp [added]

lemma taken_append (es : List (Event τ κ α)) (e : Event τ κ α) :
    taken (es ++ [e]) = taken es + e.taken := by
  simp [taken]

variable [LinearOrder τ] [DecidableEq κ] {key : α → κ} {s t u : Multiset (τ × α)}
  {e : Event τ κ α} {es pre post : List (Event τ κ α)} {k : κ}

/-- What an event leaves on the agenda. An item that is taken is due, and none is due earlier;
nothing is found only if nothing is due. -/
inductive Step (key : α → κ) : Multiset (τ × α) → Event τ κ α → Multiset (τ × α) → Prop
  | add {s : Multiset (τ × α)} (time : τ) (a : α) : Step key s (.add time a) ((time, a) ::ₘ s)
  | cancel {s : Multiset (τ × α)} (k : κ) :
      Step key s (.cancel k) (s.filter (fun x => key x.2 ≠ k))
  | take {s t : Multiset (τ × α)} {now time : τ} {a : α} (hdue : time ≤ now)
      (hs : s = (time, a) ::ₘ t) (hmin : ∀ x ∈ s, time ≤ x.1) : Step key s (.take now (some a)) t
  | idle {s : Multiset (τ × α)} {now : τ} (hlate : ∀ x ∈ s, now < x.1) :
      Step key s (.take now none) s

/-- What is on the agenda after some events. -/
inductive After (key : α → κ) : List (Event τ κ α) → Multiset (τ × α) → Prop
  | start : After key [] 0
  | next {es : List (Event τ κ α)} {e : Event τ κ α} {s t : Multiset (τ × α)}
      (hes : After key es s) (he : Step key s e t) : After key (es ++ [e]) t

lemma Step.none_iff {now : τ} {found : Option α} (h : Step key s (.take now found) t) :
    found = none ↔ ∀ x ∈ s, now < x.1 := by
  cases h with
  | take hdue hs hmin =>
    subst hs
    apply iff_of_false (by simp)
    intro hlate
    exact (hlate _ (Multiset.mem_cons_self _ _)).not_ge hdue
  | idle hlate => exact iff_of_true rfl hlate

/-- The events say what is on the agenda. -/
lemma Step.unique (h : Step key s e t) (h' : Step key s e u) : t = u := by
  cases h with
  | add time a => cases h' with | add => rfl
  | cancel k => cases h' with | cancel => rfl
  | take hdue hs hmin =>
    cases h' with
    | take hdue' hs' hmin' =>
      have hle := hmin _ (hs' ▸ Multiset.mem_cons_self _ _)
      have hge := hmin' _ (hs ▸ Multiset.mem_cons_self _ _)
      rw [hs, le_antisymm hle hge] at hs'
      exact (Multiset.cons_inj_right _).mp hs'
  | idle hlate => cases h' with | idle => rfl

lemma After.unsnoc (h : After key (es ++ [e]) t) : ∃ s, After key es s ∧ Step key s e t := by
  generalize hl : es ++ [e] = l at h
  cases h with
  | start => simp at hl
  | next hes he =>
    obtain ⟨rfl, hlast⟩ := List.append_inj' hl rfl
    cases hlast
    exact ⟨_, hes, he⟩

lemma After.unique (h : After key es s) (h' : After key es t) : s = t := by
  induction h generalizing t with
  | start =>
    generalize hl : ([] : List (Event τ κ α)) = l at h'
    cases h' with
    | start => rfl
    | next => simp at hl
  | next hes he ih =>
    obtain ⟨s, hs, he'⟩ := h'.unsnoc
    cases ih hs
    exact he.unique he'

lemma Step.balance (h : Step key s e t) :
    e.taken + t.map Prod.snd ≤ e.added + s.map Prod.snd := by
  cases h with
  | add time a => simp [Event.taken, Event.added]
  | cancel k =>
    simp only [Event.taken, Event.added, zero_add]
    exact Multiset.map_le_map (Multiset.filter_le _ _)
  | take hdue hs hmin => simp [Event.taken, Event.added, hs]
  | idle hlate => simp [Event.taken, Event.added]

/-- What is taken after a cancellation, or left, was added after it. -/
lemma After.cancelled (h : After key (pre ++ .cancel k :: post) s) :
    (taken post + s.map Prod.snd).filter (fun a => key a = k) ≤ added post := by
  induction post using List.reverseRecOn generalizing s with
  | nil =>
    obtain ⟨t, _, he⟩ := h.unsnoc
    cases he
    simp [taken, added, Multiset.filter_map, Multiset.filter_filter]
  | append_singleton post e ih =>
    rw [← List.cons_append, ← List.append_assoc] at h
    obtain ⟨t, ht, he⟩ := h.unsnoc
    have hle := ih ht
    have hb := Multiset.filter_le_filter (fun a => key a = k) he.balance
    rw [Multiset.filter_add] at hle hb
    rw [Multiset.filter_add] at hb
    rw [taken_append, added_append, Multiset.filter_add, Multiset.filter_add, add_assoc]
    calc _ ≤ (taken post).filter (fun a => key a = k) +
          (e.added.filter (fun a => key a = k) + (t.map Prod.snd).filter (fun a => key a = k)) :=
          add_le_add_right hb _
      _ = ((taken post).filter (fun a => key a = k) +
          (t.map Prod.snd).filter (fun a => key a = k)) + e.added.filter (fun a => key a = k) := by
          rw [add_comm (e.added.filter _), add_assoc]
      _ ≤ added post + e.added := add_le_add hle (Multiset.filter_le _ _)

end QuicP2p.Library.Agenda
