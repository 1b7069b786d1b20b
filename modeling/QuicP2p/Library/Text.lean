import QuicP2p.Library.Outcome

/-! Texts in UTF-8, by their characters, and cursors in them. -/

namespace QuicP2p.Library

open String

/-- The characters of a text with the places of their first bytes, counted from `i`. -/
def charIndices (i : ℕ) : List Char → List (ℕ × Char)
  | [] => []
  | c :: s => (i, c) :: charIndices (i + c.utf8Size) s

/-- Insert a character before the byte with an index, if a character begins or the text ends
there. -/
def insertChar (x : Char) : ℕ → List Char → Option (List Char)
  | 0, s => some (x :: s)
  | _ + 1, [] => none
  | i + 1, c :: s =>
    if c.utf8Size ≤ i + 1 then (insertChar x (i + 1 - c.utf8Size) s).map (c :: ·) else none

section utf8

variable {s l r : List Char} {x : Char} {i : ℕ}

lemma length_le_utf8Len (s : List Char) : s.length ≤ utf8Len s := by
  induction s with
  | nil => exact le_rfl
  | cons c s ih =>
    have hc := c.utf8Size_pos
    rw [List.length_cons, utf8Len_cons]
    omega

lemma getElem?_charIndices (l r : List Char) (i : ℕ) :
    ((charIndices i (l ++ r)).map Prod.fst)[l.length]?.getD (i + utf8Len (l ++ r)) =
      i + utf8Len l := by
  induction l generalizing i with
  | nil =>
    cases r with
    | nil => simp [charIndices]
    | cons c r => simp [charIndices]
  | cons c l ih =>
    have hi := ih (i + c.utf8Size)
    simpa [charIndices, add_assoc, add_comm, add_left_comm] using hi

lemma insertChar_append (x : Char) (l r : List Char) :
    insertChar x (utf8Len l) (l ++ r) = some (l ++ x :: r) := by
  induction l with
  | nil => simp [insertChar]
  | cons c l ih =>
    obtain ⟨k, hk⟩ : ∃ k, utf8Len (c :: l) = k + 1 := by
      have hc := c.utf8Size_pos
      rw [utf8Len_cons]
      exact ⟨utf8Len l + c.utf8Size - 1, by omega⟩
    have hc : c.utf8Size ≤ k + 1 := by
      rw [← hk, utf8Len_cons]
      omega
    have hl : k + 1 - c.utf8Size = utf8Len l := by
      rw [← hk, utf8Len_cons]
      omega
    rw [hk, List.cons_append, insertChar, if_pos hc, hl, ih]
    rfl

end utf8

/-- A text and a place in it: what stands before the place and what stands after it. -/
structure Cursor (α : Type) where
  before : List α
  after : List α

namespace Cursor

variable {α : Type}

def empty : Cursor α := ⟨[], []⟩

def text (c : Cursor α) : List α := c.before ++ c.after

def insert (a : α) (c : Cursor α) : Cursor α := ⟨c.before ++ [a], c.after⟩

def delete (c : Cursor α) : Cursor α := ⟨c.before.dropLast, c.after⟩

def left (c : Cursor α) : Cursor α := ⟨c.before.dropLast, c.before.getLast?.toList ++ c.after⟩

def right (c : Cursor α) : Cursor α := ⟨c.before ++ c.after.head?.toList, c.after.tail⟩

@[simp] lemma text_empty : (empty : Cursor α).text = [] := rfl

@[simp] lemma text_left (c : Cursor α) : c.left.text = c.text := by
  rw [text, left, List.dropLast_eq_take, ← List.append_assoc,
    List.take_append_getLast?]
  rfl

@[simp] lemma text_right (c : Cursor α) : c.right.text = c.text := by
  obtain ⟨l, r⟩ := c
  cases r <;> simp [text, right]

lemma text_insert (a : α) (c : Cursor α) : (c.insert a).text = c.before ++ a :: c.after := by
  simp [text, insert]

lemma text_delete (c : Cursor α) :
    c.delete.text = c.text.take (c.before.length - 1) ++ c.text.drop c.before.length := by
  simp [text, delete, List.dropLast_eq_take]

lemma length_right (c : Cursor α) :
    c.right.before.length = min (c.before.length + 1) c.text.length := by
  obtain ⟨l, r⟩ := c
  cases r <;> simp [text, right]

end Cursor

end QuicP2p.Library
