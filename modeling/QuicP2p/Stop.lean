import QuicP2p.Library.Random

/-! Why a call does not return. -/

namespace QuicP2p

/-- The panics of the source, and the bound of a loop of the model. -/
inductive Stop
  | emptyRange
  | indexOutOfBounds
  | divisionByZero
  | overflow
  | expect (text : String)
  | assertion (text : String)
  | todo
  | loopBound
  deriving DecidableEq

abbrev Exec (α : Type) := Except Stop α

def orPanic {α : Type} (why : Stop) : Option α → Exec α
  | some a => .ok a
  | none => .error why

@[simp] lemma orPanic_some {α : Type} (why : Stop) (a : α) : orPanic why (some a) = .ok a := rfl

end QuicP2p
