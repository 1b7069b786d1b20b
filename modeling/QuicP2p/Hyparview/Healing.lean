import QuicP2p.Hyparview.Symmetry

/-! Active views that lost messages have made differ agree again once their nodes have announced
themselves. -/

namespace QuicP2p.Hyparview

open Library

variable {T R : Type} [Rng R] [DecidableEq T]

namespace Cluster

variable {ids : Finset T} {w w₀ w' : Cluster T R} {p q : T}
  {tr tr₀ : List (Taken (Cluster T R) (Move T (Operation T)))}

/-- The node has announced itself to its active view in one of the steps. -/
def Announced (tr : List (Taken (Cluster T R) (Move T (Operation T)))) (p : T) : Prop :=
  ∃ e ∈ tr, e.input = .call p .syncActiveView

omit [Rng R] [DecidableEq T] in
lemma announced_concat {e : Taken (Cluster T R) (Move T (Operation T))} :
    Announced (tr ++ [e]) p ↔ Announced tr p ∨ e.input = .call p .syncActiveView := by
  simp [Announced, or_and_right, exists_or]

/-- A node that announces itself sends a message to whoever it has in its active view. -/
lemma mending_of_sync (h : Sane ids w) (hp : p ∈ ids)
    (hs : Network.step protocol ids w (.call p .syncActiveView) = .ok w') : Mending ids w' p q := by
  have hw' : w' = w.update p (w.node p).syncActiveView := by
    simp only [Network.step, if_pos hp] at hs
    exact (Except.ok.inj hs).symm
  intro hq _
  rw [hw', Network.node_update_self, Node.activeView_syncActiveView] at hq
  refine .inl ⟨false, .inr ⟨p, hp, ?_⟩⟩
  rw [hw', Network.node_update_self, Node.syncActiveView, Node.sendEach_eq, h.id_eq p hp]
  exact List.mem_append_right _ (List.mem_map.mpr ⟨q, hq, rfl⟩)

lemma sane_of_run (h₀ : Sane ids w₀) (h : Run (Network.step protocol ids) w₀ tr w) :
    Sane ids w := by
  apply h.invariant (P := Sane ids)
  · intro w mv w' hw hs
    exact hw.step hs
  · exact h₀

lemma mending_of_run (h₀ : Sane ids w₀) (h : Run (Network.step protocol ids) w₀ tr w)
    (hmoves : ∀ e ∈ tr, Spares e.before p q e.input) (hp : p ∈ ids) (hq : q ∈ ids)
    (hsync : Mending ids w₀ p q ∨ Announced tr p) : Mending ids w p q := by
  refine (h.history (P := fun tr w => (∀ e ∈ tr, Spares e.before p q e.input) →
    Sane ids w ∧ (Mending ids w₀ p q ∨ Announced tr p → Mending ids w p q)) ?_ ?_ hmoves).2 hsync
  · intro tr w mv w' ih hs hmoves
    obtain ⟨hw, hlink⟩ := ih fun e he => hmoves e (List.mem_append_left _ he)
    have hkept : Mending ids w p q → Mending ids w' p q := fun hm =>
      hm.step hw hs (hmoves ⟨w, mv, w'⟩ (by simp)) hp hq
    refine ⟨hw.step hs, ?_⟩
    rintro (hm | ha)
    · exact hkept (hlink (.inl hm))
    · rcases announced_concat.mp ha with ha | ha
      · exact hkept (hlink (.inr ha))
      · have hmv : mv = .call p .syncActiveView := ha
        exact mending_of_sync hw hp (hmv ▸ hs)
  · rintro -
    refine ⟨h₀, ?_⟩
    rintro (hm | ⟨e, he, _⟩)
    · exact hm
    · simp at he

omit [Rng R] in
lemma Mending.at_rest (h : Mending ids w p q) (hflight : w.flight = [])
    (hqueues : ∀ p ∈ ids, (w.node p).actions = []) (hpq : q ∈ (w.node p).activeView) :
    p ∈ (w.node q).activeView := by
  have hnone : ∀ d m, ¬ Pending ids w d m := by
    rintro d m (hm | ⟨r, hr, hm⟩)
    · simp [hflight] at hm
    · simp [hqueues r hr] at hm
  by_contra hqp
  rcases h hpq hqp with ⟨x, hx⟩ | hx
  · exact hnone _ _ hx
  · exact hnone _ _ hx

/-- Whatever was lost, forged or declared dead before: two nodes that have announced themselves
since messages between them stopped getting lost agree about their link at rest. -/
theorem symmetric_after_sync {options : T → NodeOptions} {rng : T → R}
    (hopt : ∀ p ∈ ids, 1 ≤ (options p).maxActiveViewSize.toNat ∧
      1 ≤ (options p).maxPassiveViewSize.toNat)
    (h₀ : Run (Network.step protocol ids) (fresh options rng) tr₀ w₀)
    (h : Run (Network.step protocol ids) w₀ tr w)
    (hmoves : ∀ e ∈ tr, Spares e.before p q e.input ∧ Spares e.before q p e.input)
    (hflight : w.flight = []) (hqueues : ∀ p ∈ ids, (w.node p).actions = [])
    (hp : p ∈ ids) (hq : q ∈ ids) (hsp : Announced tr p) (hsq : Announced tr q) :
    p ∈ (w.node q).activeView ↔ q ∈ (w.node p).activeView := by
  have hsane : Sane ids w₀ := sane_of_run (fresh_mended hopt).toSane h₀
  constructor
  · have hlink := mending_of_run hsane h (fun e he => (hmoves e he).2) hq hp (.inr hsq)
    exact hlink.at_rest hflight hqueues
  · have hlink := mending_of_run hsane h (fun e he => (hmoves e he).1) hp hq (.inr hsp)
    exact hlink.at_rest hflight hqueues

/-- Node 1 joins through node 0, but the answer is lost. -/
def severed : List (Move ℕ (Operation ℕ)) :=
  [.call 1 (.join 0), .poll 1, .deliver 0, .poll 0, .poll 0, .lose 0]

/-- Both nodes announce themselves, and every message is delivered. -/
def resumed : List (Move ℕ (Operation ℕ)) :=
  [.call 0 .syncActiveView, .call 1 .syncActiveView, .poll 0, .deliver 0, .poll 1, .poll 1,
    .deliver 0]

theorem symmetric_after_sync_severed :
    ∃ (tr tr₀ : List (Taken (Cluster ℕ Playback) (Move ℕ (Operation ℕ))))
      (w₀ w : Cluster ℕ Playback),
      Run (Network.step protocol {0, 1}) (fresh (fun _ => {}) (fun _ => ⟨[]⟩)) tr₀ w₀ ∧
        (1 ∈ (w₀.node 0).activeView ∧ 0 ∉ (w₀.node 1).activeView) ∧
        Run (Network.step protocol {0, 1}) w₀ tr w ∧ 1 ∈ (w.node 0).activeView ∧
        (0 ∈ (w.node 1).activeView ↔ 1 ∈ (w.node 0).activeView) := by
  have hrun₀ : follow (Network.step protocol {0, 1})
      (fresh (fun _ => {}) (fun _ => (⟨[]⟩ : Playback))) severed = .ok _ := rfl
  have hrun : follow (Network.step protocol {0, 1})
      (reached (Network.step protocol {0, 1}) (fresh (fun _ => {}) (fun _ => (⟨[]⟩ : Playback)))
        severed) resumed = .ok _ := rfl
  have hmoves := Run.inputs_of_follow (C := Lossless) resumed hrun
    (by simp [resumed, Lossless, Operation.Ordinary])
  refine ⟨_, _, _, _, Run.of_follow severed hrun₀, by decide, Run.of_follow resumed hrun,
    by decide, ?_⟩
  refine symmetric_after_sync (fun _ _ => by decide) (Run.of_follow severed hrun₀)
    (Run.of_follow resumed hrun)
    (fun e he => ⟨spares_of_lossless (hmoves e he) _ _, spares_of_lossless (hmoves e he) _ _⟩) rfl
    ?_ (by decide) (by decide) ⟨_, .head _, rfl⟩ ⟨_, .tail _ (.head _), rfl⟩
  decide

end Cluster

end QuicP2p.Hyparview
