import QuicP2p.Library.Runs

/-! Operations of a growable array that work in place, on lists. -/

namespace QuicP2p.Library

variable {α : Type}

/-- Remove the element at `i` by moving the last element into its place. -/
def swapRemove (l : List α) (i : ℕ) : Option (α × List α) := do
  let x ← l[i]?
  let y ← l.getLast?
  some (x, (l.set i y).dropLast)

def swap (l : List α) (i j : ℕ) : Option (List α) := do
  let x ← l[i]?
  let y ← l[j]?
  some ((l.set i y).set j x)

lemma swapRemove_perm {l m : List α} {i : ℕ} {x : α} (h : swapRemove l i = some (x, m)) :
    l.Perm (x :: m) := by
  simp only [swapRemove, Option.bind_eq_bind, Option.bind_eq_some_iff, Option.some.injEq,
    Prod.mk.injEq] at h
  obtain ⟨a, ha, y, hy, rfl, rfl⟩ := h
  obtain ⟨d, rfl⟩ := List.getLast?_eq_some_iff.mp hy
  obtain ⟨hi, ha⟩ := List.getElem?_eq_some_iff.mp ha
  rcases Nat.lt_or_ge i d.length with hd | hd
  · have he : (d ++ [y]).set i y = d.set i y ++ [y] := List.set_append_left i y hd
    rw [List.getElem_append_left hd] at ha
    rw [he, List.dropLast_concat]
    calc (d ++ [y]).Perm (y :: d) := List.perm_append_singleton y d
      _ |>.Perm (y :: a :: d.eraseIdx i) :=
        .cons y (ha ▸ (List.getElem_cons_eraseIdx_perm hd).symm)
      _ |>.Perm (a :: y :: d.eraseIdx i) := List.Perm.swap _ _ _
      _ |>.Perm (a :: d.set i y) := .cons a (List.set_perm_cons_eraseIdx hd y).symm
  · have he : i = d.length := by simp at hi; omega
    subst he
    simp at ha
    simp [ha]

lemma swapRemove_of_lt {l : List α} {i : ℕ} (hi : i < l.length) :
    ∃ m, swapRemove l i = some (l[i], m) := by
  have hn : l ≠ [] := by
    rintro rfl
    simp at hi
  exact ⟨(l.set i (l.getLast hn)).dropLast,
    by simp [swapRemove, List.getElem?_eq_getElem hi, List.getLast?_eq_some_getLast hn]⟩

lemma swap_perm {l m : List α} {i j : ℕ} (h : swap l i j = some m) : m.Perm l := by
  simp only [swap, Option.bind_eq_bind, Option.bind_eq_some_iff, Option.some.injEq] at h
  obtain ⟨x, hx, y, hy, rfl⟩ := h
  obtain ⟨hi, rfl⟩ := List.getElem?_eq_some_iff.mp hx
  obtain ⟨hj, rfl⟩ := List.getElem?_eq_some_iff.mp hy
  have h : (l.toArray.swap i j hi hj).Perm l.toArray := Array.swap_perm hi hj
  simpa [Array.perm_iff_toList_perm] using h

lemma swap_of_lt {l : List α} {i j : ℕ} (hi : i < l.length) (hj : j < l.length) :
    swap l i j = some ((l.set i l[j]).set j l[i]) := by
  simp [swap, List.getElem?_eq_getElem hi, List.getElem?_eq_getElem hj]

lemma filterMap_congr {β : Type} {s : Multiset α} {f g : α → Option β} (h : ∀ x ∈ s, f x = g x) :
    s.filterMap f = s.filterMap g := by
  induction s using Quotient.inductionOn with
  | h l => exact congrArg _ (List.filterMap_congr h)

end QuicP2p.Library
