import QuicP2p.Library.Runs
import QuicP2p.Library.Text
import QuicP2p.P2p.Message

/-! The input line of the chat window, and the text cursor that it is. -/

namespace QuicP2p.P2p

open Library

inductive InputMode
  | normal
  | editing
  deriving DecidableEq

structure InputViewModel where
  myselfId : String
  input : List Char
  inputMode : InputMode
  characterIndex : ℕ
  deriving DecidableEq

namespace MessageViewModel

/-- A message as the window shows it. The time is in nanoseconds since the epoch. -/
structure Message where
  time : ℤ
  content : String
  user : UserType String
  relayRoute : Option (List String)
  deriving DecidableEq

def Message.new (localTime : ℤ) (content : String) (user : UserType String)
    (relayRoute : Option (List String)) : Message :=
  ⟨localTime, content, user, relayRoute⟩

end MessageViewModel

/-- The keys that edit the line. The time is the one at which a message is submitted. -/
inductive Edit
  | enterChar (newChar : Char)
  | deleteChar
  | moveCursorLeft
  | moveCursorRight
  | submitMessage (now : ℤ)
  deriving DecidableEq

/-- No string takes more bytes than the largest `isize`. -/
def maxCapacity : ℕ := 2 ^ 63 - 1

def usizeMax : ℕ := 2 ^ 64 - 1

namespace InputViewModel

def new (myselfId : String) : InputViewModel := ⟨myselfId, [], .normal, 0⟩

def clampCursor (m : InputViewModel) (newCursorPos : ℕ) : ℕ := min newCursorPos m.input.length

def moveCursorLeft (m : InputViewModel) : InputViewModel :=
  { m with characterIndex := m.clampCursor (m.characterIndex - 1) }

/-- The addition saturates. -/
def moveCursorRight (m : InputViewModel) : InputViewModel :=
  { m with characterIndex := m.clampCursor (min (m.characterIndex + 1) usizeMax) }

def byteIndex (m : InputViewModel) : ℕ :=
  ((charIndices 0 m.input).map Prod.fst)[m.characterIndex]?.getD (String.utf8Len m.input)

/-- The insertion panics at an index inside of a character, and where the string has no room. -/
def enterChar (m : InputViewModel) (newChar : Char) : Exec InputViewModel := do
  let input ← orPanic (.assertion "self.is_char_boundary(idx)")
    (insertChar newChar m.byteIndex m.input)
  if String.utf8Len input ≤ maxCapacity then .ok { m with input := input }.moveCursorRight
  else .error .overflow

def deleteChar (m : InputViewModel) : InputViewModel :=
  if m.characterIndex ≠ 0 then
    { m with input := m.input.take (m.characterIndex - 1) ++ m.input.drop m.characterIndex
      }.moveCursorLeft
  else m

def resetCursor (m : InputViewModel) : InputViewModel := { m with characterIndex := 0 }

def submitMessage (m : InputViewModel) (now : ℤ) : MessageViewModel.Message × InputViewModel :=
  (.new now (String.ofList m.input) (.user m.myselfId) none, { m with input := [] }.resetCursor)

def edit (m : InputViewModel) : Edit → Exec InputViewModel
  | .enterChar newChar => m.enterChar newChar
  | .deleteChar => .ok m.deleteChar
  | .moveCursorLeft => .ok m.moveCursorLeft
  | .moveCursorRight => .ok m.moveCursorRight
  | .submitMessage now => .ok (m.submitMessage now).2

end InputViewModel

/-- What a key does to a text cursor. -/
def Edit.act (c : Cursor Char) : Edit → Cursor Char
  | .enterChar newChar => c.insert newChar
  | .deleteChar => c.delete
  | .moveCursorLeft => c.left
  | .moveCursorRight => c.right
  | .submitMessage _ => .empty

/-- The cursor that a list of keys makes of an empty text. -/
def Edit.cursor (es : List Edit) : Cursor Char := es.foldl act .empty

namespace InputViewModel

/-- The line shows the cursor, and its text fits into a string. -/
structure Shows (id : String) (m : InputViewModel) (c : Cursor Char) : Prop where
  myselfId_eq : m.myselfId = id
  input_eq : m.input = c.text
  index_eq : m.characterIndex = c.before.length
  fits : String.utf8Len c.text ≤ maxCapacity

variable {id : String} {m m' : InputViewModel} {c : Cursor Char} {e : Edit}

namespace Shows

lemma byteIndex_eq (h : Shows id m c) : m.byteIndex = String.utf8Len c.before := by
  have hi := getElem?_charIndices c.before c.after 0
  rw [Nat.zero_add, Nat.zero_add] at hi
  rw [byteIndex, h.input_eq, h.index_eq]
  exact hi

/-- Moving right does not saturate. -/
lemma moveCursorRight (h : m.myselfId = id) (hi : m.input = c.text)
    (hfits : String.utf8Len c.text ≤ maxCapacity)
    (hr : min (m.characterIndex + 1) c.text.length = c.before.length) :
    Shows id m.moveCursorRight c := by
  refine ⟨h, hi, ?_, hfits⟩
  have hlen := length_le_utf8Len c.text
  simp only [maxCapacity] at hfits
  simp only [InputViewModel.moveCursorRight, clampCursor, hi, usizeMax]
  omega

lemma enterChar (h : Shows id m c) (x : Char) :
    (∃ m', m.enterChar x = .ok m' ∧ Shows id m' (c.insert x)) ∨
      m.enterChar x = .error .overflow ∧
        maxCapacity < String.utf8Len c.text + x.utf8Size := by
  have hins : insertChar x m.byteIndex m.input = some (c.insert x).text := by
    rw [h.byteIndex_eq, h.input_eq, Cursor.text_insert]
    exact insertChar_append x c.before c.after
  have hlen : String.utf8Len (c.insert x).text = String.utf8Len c.text + x.utf8Size := by
    rw [Cursor.text_insert, Cursor.text]
    simp only [String.utf8Len_append, String.utf8Len_cons]
    omega
  rw [InputViewModel.enterChar, hins, orPanic_some, ok_bind]
  split
  next hfits =>
    refine .inl ⟨_, rfl, moveCursorRight h.myselfId_eq rfl hfits ?_⟩
    simp [h.index_eq, Cursor.text, Cursor.insert]
  next hfits => exact .inr ⟨rfl, by omega⟩

lemma deleteChar (h : Shows id m c) : Shows id m.deleteChar c.delete := by
  have htext := c.text_delete
  have hsub : String.utf8Len c.delete.text ≤ String.utf8Len c.text := by
    apply String.utf8Len_le_of_sublist
    exact (List.dropLast_sublist _).append_right _
  rw [InputViewModel.deleteChar]
  split
  next h0 =>
    rw [h.index_eq] at h0
    refine ⟨h.myselfId_eq, ?_, ?_, hsub.trans h.fits⟩
    · rw [htext, InputViewModel.moveCursorLeft, h.input_eq, h.index_eq]
    · simp only [InputViewModel.moveCursorLeft, clampCursor, h.input_eq, h.index_eq, ← htext]
      simp [Cursor.text, Cursor.delete]
  next h0 =>
    have hnil : c.before = [] := by
      apply List.length_eq_zero_iff.mp
      rw [← h.index_eq]
      exact not_not.mp h0
    have hsame : c.delete = c := by
      rw [Cursor.delete, hnil, List.dropLast_nil, ← hnil]
    rwa [hsame]

lemma moveCursorLeft (h : Shows id m c) : Shows id m.moveCursorLeft c.left := by
  refine ⟨h.myselfId_eq, ?_, ?_, ?_⟩
  · rw [Cursor.text_left]
    exact h.input_eq
  · simp only [InputViewModel.moveCursorLeft, clampCursor, h.input_eq, h.index_eq]
    simp [Cursor.text, Cursor.left]
    omega
  · rw [Cursor.text_left]
    exact h.fits

lemma edit (h : Shows id m c) (hs : m.edit e = .ok m') : Shows id m' (e.act c) := by
  cases e with
  | enterChar x =>
    rcases h.enterChar x with ⟨k, hk, hshows⟩ | ⟨hk, _⟩
    · cases hk.symm.trans hs
      exact hshows
    · cases hk.symm.trans hs
  | deleteChar =>
    cases hs
    exact h.deleteChar
  | moveCursorLeft =>
    cases hs
    exact h.moveCursorLeft
  | moveCursorRight =>
    cases hs
    apply moveCursorRight h.myselfId_eq
    · rw [Edit.act, Cursor.text_right]
      exact h.input_eq
    · rw [Edit.act, Cursor.text_right]
      exact h.fits
    · rw [Edit.act, Cursor.text_right, Cursor.length_right, h.index_eq]
  | submitMessage now =>
    cases hs
    exact ⟨h.myselfId_eq, rfl, rfl, Nat.zero_le _⟩

/-- An edit returns, unless the string has no room for the character. -/
lemma edit_cases (h : Shows id m c) (e : Edit) : (∃ m', m.edit e = .ok m') ∨
    ∃ x, e = .enterChar x ∧ m.edit e = .error .overflow ∧
      maxCapacity < String.utf8Len c.text + x.utf8Size := by
  cases e with
  | enterChar x =>
    rcases h.enterChar x with ⟨k, hk, _⟩ | ⟨hk, hfull⟩
    · exact .inl ⟨k, hk⟩
    · exact .inr ⟨x, rfl, hk, hfull⟩
  | _ => exact .inl ⟨_, rfl⟩

lemma byteIndex_valid (h : Shows id m c) :
    (⟨m.byteIndex⟩ : String.Pos.Raw).IsValid (String.ofList m.input) := by
  rw [String.Pos.Raw.isValid_ofList]
  refine ⟨c.before.length, ?_⟩
  rw [h.byteIndex_eq, h.input_eq, String.utf8ByteSize_ofList, Cursor.text, List.take_left]

end Shows

variable {tr : List (Taken InputViewModel Edit)}

lemma shows_of_run (h : Run edit (new id) tr m) :
    Shows id m (Edit.cursor (tr.map Taken.input)) := by
  refine h.history (P := fun tr m => Shows id m (Edit.cursor (tr.map Taken.input))) ?_ ?_
  · intro tr m e m' hm he
    rw [List.map_append, Edit.cursor, List.foldl_append]
    exact hm.edit he
  · exact ⟨rfl, rfl, rfl, Nat.zero_le _⟩

/-- The line is a text cursor: it holds what stands before and after the place of the cursor, it
knows that place in characters and in bytes, and it submits the text. A key fails only where the
string has no room for a character. -/
theorem text_cursor (h : Run edit (new id) tr m) (hc : Edit.cursor (tr.map Taken.input) = c) :
    m.input = c.before ++ c.after ∧ m.characterIndex = c.before.length ∧
      m.byteIndex = (String.ofList c.before).utf8ByteSize ∧
      (⟨m.byteIndex⟩ : String.Pos.Raw).IsValid (String.ofList m.input) ∧
      (∀ now, (m.submitMessage now).1 =
        ⟨now, String.ofList (c.before ++ c.after), .user id, none⟩) ∧
      ∀ e, (∃ m', m.edit e = .ok m') ∨ ∃ x, e = .enterChar x ∧ m.edit e = .error .overflow ∧
        maxCapacity < String.utf8Len (c.before ++ c.after) + x.utf8Size := by
  have hm := shows_of_run h
  rw [hc] at hm
  refine ⟨hm.input_eq, hm.index_eq, ?_, hm.byteIndex_valid, fun now => ?_, hm.edit_cases⟩
  · rw [hm.byteIndex_eq, String.utf8ByteSize_ofList]
  · rw [submitMessage, hm.input_eq, hm.myselfId_eq]
    rfl

def typed : List Edit :=
  [.enterChar '你', .enterChar 'h', .enterChar '好', .moveCursorLeft, .moveCursorLeft, .deleteChar,
    .enterChar '您', .moveCursorRight]

theorem text_cursor_typed : ∃ (m : InputViewModel) (tr : List (Taken InputViewModel Edit)),
    Run edit (new "11") tr m ∧ m.input = ['您', 'h', '好'] ∧
      m.byteIndex = (String.ofList ['您', 'h']).utf8ByteSize := by
  have hrun : follow edit (new "11") typed = .ok _ := rfl
  obtain ⟨hinput, _, hbyte, _⟩ :=
    text_cursor (c := ⟨['您', 'h'], ['好']⟩) (Run.of_follow typed hrun) rfl
  exact ⟨_, _, Run.of_follow typed hrun, hinput, hbyte⟩

end InputViewModel

end QuicP2p.P2p
