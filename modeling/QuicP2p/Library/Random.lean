import QuicP2p.Library.Collections

/-! Random number generators, by what their draws guarantee. -/

namespace QuicP2p.Library

class Rng (R : Type) where
  randomRange : ℕ → R → ℕ × R
  randomRange_lt (n : ℕ) (r : R) : 0 < n → (randomRange n r).1 < n
  shuffle {α : Type} : List α → R → List α × R
  shuffle_perm {α : Type} (l : List α) (r : R) : (shuffle l r).1.Perm l

/-- A generator that plays back a list of draws, then zeros. -/
structure Playback where
  draws : List ℕ

namespace Playback

def draw (n : ℕ) (r : Playback) : ℕ × Playback := (r.draws.headD 0 % n, ⟨r.draws.tail⟩)

def shuffle {α : Type} : List α → Playback → List α × Playback
  | [], r => ([], r)
  | x :: l, r =>
    let (m, r) := shuffle l r
    let (i, r) := draw (m.length + 1) r
    (m.insertIdx i x, r)

instance : Rng Playback where
  randomRange := draw
  randomRange_lt n r h := Nat.mod_lt _ h
  shuffle := shuffle
  shuffle_perm l r := by
    induction l with
    | nil => exact .nil
    | cons x l ih =>
      have hi : (draw ((shuffle l r).1.length + 1) (shuffle l r).2).1 ≤ (shuffle l r).1.length :=
        Nat.le_of_lt_succ (Nat.mod_lt _ (Nat.succ_pos _))
      exact (List.perm_insertIdx x _ hi).trans (ih.cons x)

end Playback

end QuicP2p.Library
