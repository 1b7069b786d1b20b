import QuicP2p.Library.Network

/-! Trees given by the parent of every vertex but one. -/

namespace QuicP2p.Library

variable {V : Type} {root : V} {parent : V → V} {rank : V → ℕ}

/-- Every vertex but the root is linked to its parent. -/
def parentGraph (root : V) (parent : V → V) : SimpleGraph V where
  Adj u v := u ≠ v ∧ (u ≠ root ∧ parent u = v ∨ v ≠ root ∧ parent v = u)
  symm := ⟨fun _ _ h => ⟨h.1.symm, h.2.symm⟩⟩
  loopless := ⟨fun _ h => h.1 rfl⟩

lemma parentGraph_adj {u v : V} : (parentGraph root parent).Adj u v ↔
    u ≠ v ∧ (u ≠ root ∧ parent u = v ∨ v ≠ root ∧ parent v = u) := .rfl

lemma parent_adj (hrank : ∀ v, v ≠ root → rank (parent v) < rank v) {v : V} (hv : v ≠ root) :
    (parentGraph root parent).Adj v (parent v) := by
  refine ⟨?_, .inl ⟨hv, rfl⟩⟩
  intro h
  have hlt := hrank v hv
  rw [← h] at hlt
  exact lt_irrefl _ hlt

lemma parentGraph_connected (hrank : ∀ v, v ≠ root → rank (parent v) < rank v) :
    (parentGraph root parent).Connected := by
  rw [SimpleGraph.connected_iff_exists_forall_reachable]
  refine ⟨root, fun v => ?_⟩
  induction hn : rank v using Nat.strong_induction_on generalizing v with
  | _ n ih =>
    by_cases hv : v = root
    · rw [hv]
    · have hp := ih _ (hn ▸ hrank v hv) (parent v) rfl
      exact hp.trans (parent_adj hrank hv).symm.reachable

def parentEdge (hrank : ∀ v, v ≠ root → rank (parent v) < rank v) (v : {v // v ≠ root}) :
    (parentGraph root parent).edgeSet :=
  ⟨s(v.1, parent v.1), (SimpleGraph.mem_edgeSet _).mpr (parent_adj hrank v.2)⟩

lemma parentEdge_bijective (hrank : ∀ v, v ≠ root → rank (parent v) < rank v) :
    Function.Bijective (parentEdge hrank) := by
  constructor
  · rintro ⟨u, hu⟩ ⟨v, hv⟩ h
    have h : s(u, parent u) = s(v, parent v) := congrArg Subtype.val h
    rcases Sym2.eq_iff.mp h with ⟨h, _⟩ | ⟨hl, hr⟩
    · exact Subtype.ext h
    · -- each would be the parent of the other
      have hu' := hrank u hu
      have hv' := hrank v hv
      rw [hr] at hu'
      rw [← hl] at hv'
      omega
  · rintro ⟨e, he⟩
    induction e using Sym2.ind with
    | _ u v =>
      obtain ⟨_, ⟨hu, rfl⟩ | ⟨hv, rfl⟩⟩ := parentGraph_adj.mp ((SimpleGraph.mem_edgeSet _).mp he)
      · exact ⟨⟨u, hu⟩, rfl⟩
      · exact ⟨⟨v, hv⟩, Subtype.ext Sym2.eq_swap⟩

/-- The edges are the vertices other than the root, each with its parent. -/
lemma parentGraph_card (hrank : ∀ v, v ≠ root → rank (parent v) < rank v) [Finite V] :
    Nat.card (parentGraph root parent).edgeSet + 1 = Nat.card V := by
  have := Fintype.ofFinite V
  classical
  rw [← Nat.card_congr (Equiv.ofBijective _ (parentEdge_bijective hrank)), Nat.card_eq_fintype_card,
    Nat.card_eq_fintype_card, Fintype.card_subtype_compl, Fintype.card_subtype_eq]
  exact Nat.sub_add_cancel (Fintype.card_pos_iff.mpr ⟨root⟩)

lemma parentGraph_isTree (hrank : ∀ v, v ≠ root → rank (parent v) < rank v) [Finite V] :
    (parentGraph root parent).IsTree :=
  SimpleGraph.isTree_iff_connected_and_card.mpr
    ⟨parentGraph_connected hrank, parentGraph_card hrank⟩

end QuicP2p.Library
