import QuicP2p.Hyparview.Operations

/-! When a node draws from an empty view. Its options are arbitrary and may change at any time, so
nothing bounds the views from below or above. -/

namespace QuicP2p.Hyparview.Node

open Library

variable {T R : Type} [DecidableEq T]

instance (n : Node T R) (x : T) : Decidable (n.Stranger x) := inferInstanceAs (Decidable (_ ∧ _))

instance (n : Node T R) : Decidable n.PassiveBarred := inferInstanceAs (Decidable (_ ∧ _))

instance (n : Node T R) : Decidable n.ActiveBarred := inferInstanceAs (Decidable (_ ∧ (_ ∨ _)))

instance (n : Node T R) : DecidablePred n.OverdrawnBy
  | .join _ => inferInstanceAs (Decidable (_ ∧ _))
  | .forwardJoin _ => inferInstanceAs (Decidable (_ ∧ ite _ _ _))
  | .neighbor _ => inferInstanceAs (Decidable (_ ∧ _ ∧ _))
  | .shuffle m => inferInstanceAs (Decidable (_ ∧ _ ∧ ∃ x ∈ m.nodes, n.Stranger x))
  | .shuffleReply m => inferInstanceAs (Decidable (_ ∧ ∃ x ∈ m.nodes, n.Stranger x))
  | .disconnect _ => inferInstanceAs (Decidable (_ ∧ ite _ _ _))

instance (n : Node T R) : DecidablePred n.Overdraws
  | .handleProtocolMessage msg => inferInstanceAs (Decidable (n.OverdrawnBy msg))
  | .disconnect node alive =>
    inferInstanceAs (Decidable (n.OverdrawnBy (.disconnect ⟨node, alive⟩)))
  | .join _ | .shufflePassiveView | .fillActiveView | .syncActiveView =>
    inferInstanceAs (Decidable False)

variable [Rng R] {n : Node T R}

/-- What the owner of a node does with it: it gives it an input or sets its options. -/
inductive Use (T : Type)
  | input (i : Input T)
  | optionsMut (options : NodeOptions)
  deriving DecidableEq

def used (n : Node T R) : Use T → Exec (Node T R)
  | .input i => n.step i
  | .optionsMut options => .ok { n with options := options }

def UseOverdraws (n : Node T R) : Use T → Prop
  | .input (.call op) => n.Overdraws op
  | _ => False

lemma used_stops (h : n.Sound) (u : Use T) : StopsIf (n.UseOverdraws u) (n.used u) Sound := by
  cases u with
  | input i =>
    cases i with
    | call op => exact (perform_performed h op).mono fun _ hm => hm.sound h
    | pollAction => exact .of_yields (.ok (h.congr rfl (.refl _) (.refl _))) fun hc => hc
  | optionsMut options =>
    exact .of_yields (.ok (h.congr rfl (.refl _) (.refl _))) fun hc => hc

/-- Whatever its options and their changes, a node panics in a run exactly where an operation
draws from an empty view. -/
theorem never_panics_iff (id : T) (rng : R) (options : NodeOptions) (uses : List (Use T)) :
    (∃ r, follow used (withOptions id rng options) uses = .ok r) ↔
      ∀ before u, before ++ [u] <+: uses →
        ∀ r, follow used (withOptions id rng options) before = .ok r → ¬ r.2.UseOverdraws u :=
  follow_returns_iff (fun _ u h => used_stops h u) (Sound.withOptions id rng options) uses

/-- A passive view that was filled before its maximum fell to zero trades its nodes. -/
example : follow used (withOptions 0 (⟨[]⟩ : Playback) {})
    [.input (.call (.handleProtocolMessage (.disconnect ⟨1, true⟩))),
      .optionsMut { maxPassiveViewSize := 0 },
      .input (.call (.handleProtocolMessage (.disconnect ⟨2, true⟩)))] |>.isOk := by decide

/-- A `JOIN` at a node whose active view may hold no node. -/
theorem join_panics :
    follow used (withOptions 0 (⟨[]⟩ : Playback) { maxActiveViewSize := 0 })
      [.input (.call (.handleProtocolMessage (.join ⟨1⟩)))] = .error .emptyRange := rfl

end QuicP2p.Hyparview.Node
