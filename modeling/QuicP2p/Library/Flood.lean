import QuicP2p.Library.ParentTree

/-! One payload that floods a graph: each vertex passes it on when it first gets it, and a link
over which it comes a second time is given up. -/

namespace QuicP2p.Library

variable {V : Type}

structure Flood (V : Type) where
  holds : V → Prop
  eager : V → V → Prop
  lazy : V → V → Prop
  crossing : V → V → ℕ
  pruning : V → V → Prop

namespace Flood

/-- The vertex `v` first gets the payload, from `u`, and passes it on to its other neighbours. -/
structure First (G : SimpleGraph V) (u v : V) (f f' : Flood V) : Prop where
  adj : G.Adj u v
  sent : 0 < f.crossing u v
  new : ¬ f.holds v
  holds : ∀ x, f'.holds x ↔ f.holds x ∨ x = v
  eager : ∀ x y, f'.eager x y ↔ f.eager x y
  lazy : ∀ x y, f'.lazy x y ↔ f.lazy x y
  crossing : ∀ x y, (x, y) ≠ (u, v) → x ≠ v → f'.crossing x y = f.crossing x y
  used : f'.crossing u v + 1 = f.crossing u v
  back : f'.crossing v u = f.crossing v u
  pushed : ∀ y, y ≠ u → G.Adj v y → f'.crossing v y = f.crossing v y + 1
  pruning : ∀ x y, f'.pruning x y → f.pruning x y

/-- The vertex `v` gives up its link to `u`. -/
structure Demoted (u v : V) (f f' : Flood V) : Prop where
  holds : ∀ x, f'.holds x ↔ f.holds x
  eager : ∀ x y, f'.eager x y ↔ f.eager x y ∧ (x, y) ≠ (v, u)
  lazy : ∀ x y, f'.lazy x y ↔ f.lazy x y ∨ (x, y) = (v, u)
  crossing : ∀ x y, (x, y) ≠ (u, v) → f'.crossing x y = f.crossing x y
  crossing_le : f'.crossing u v ≤ f.crossing u v
  pruning : ∀ x y, f'.pruning x y → f.pruning x y ∨ (x, y) = (v, u)

variable {G : SimpleGraph V} {root u v : V} {parent : V → V} {rank : V → ℕ} {f f' : Flood V}

/-- Every holder but the root got the payload from its parent, and every other link between
holders is given up or will be. -/
structure Growing (G : SimpleGraph V) (root : V) (parent : V → V) (rank : V → ℕ) (f : Flood V) :
    Prop where
  root_holds : f.holds root
  parents : ∀ v, f.holds v → v ≠ root →
    G.Adj (parent v) v ∧ f.holds (parent v) ∧ rank (parent v) < rank v
  known : ∀ u v, G.Adj u v ↔ f.eager u v ∨ f.lazy u v
  crossing_holds : ∀ u v, 0 < f.crossing u v → f.holds u
  pruning_holds : ∀ u v, f.pruning u v →
    f.holds u ∧ f.holds v ∧ ¬ (parentGraph root parent).Adj u v
  unaware : ∀ u v, ¬ f.holds u → ¬ f.lazy u v
  frontier : ∀ u v, G.Adj u v → f.holds u → ¬ f.holds v → f.crossing u v = 1 ∧ ¬ f.lazy u v
  tree : ∀ u v, f.holds u → f.holds v → (parentGraph root parent).Adj u v →
    f.crossing u v = 0 ∧ ¬ f.lazy u v
  cross : ∀ u v, G.Adj u v → f.holds u → f.holds v → ¬ (parentGraph root parent).Adj u v →
    0 < f.crossing u v ∨ f.lazy v u ∧ ¬ f.eager v u

/-- The root alone has the payload, which is on its way to each of its neighbours. -/
structure Started (G : SimpleGraph V) (root : V) (f : Flood V) : Prop where
  holds : ∀ u, f.holds u ↔ u = root
  eager : ∀ u v, G.Adj u v ↔ f.eager u v
  lazy : ∀ u v, ¬ f.lazy u v
  pushed : ∀ v, G.Adj root v → f.crossing root v = 1
  crossing : ∀ u v, 0 < f.crossing u v → u = root
  pruning : ∀ u v, ¬ f.pruning u v

lemma Started.growing (h : Started G root f) : Growing G root (fun _ => root) (fun _ => 0) f := by
  have hsame : ∀ {u v}, f.holds u → f.holds v → u = v := fun hu hv =>
    ((h.holds _).mp hu).trans ((h.holds _).mp hv).symm
  refine ⟨(h.holds root).mpr rfl, ?_, ?_, ?_, ?_, ?_, ?_, ?_, ?_⟩
  · intro v hv hne
    exact absurd ((h.holds v).mp hv) hne
  · intro u v
    rw [h.eager]
    exact ⟨.inl, fun he => he.resolve_right (h.lazy u v)⟩
  · intro u v huv
    exact (h.holds u).mpr (h.crossing u v huv)
  · intro u v huv
    exact absurd huv (h.pruning u v)
  · intro u v _
    exact h.lazy u v
  · intro u v hadj hu _
    rw [(h.holds u).mp hu] at hadj ⊢
    exact ⟨h.pushed v hadj, h.lazy root v⟩
  · intro u v hu hv hadj
    exact absurd (hsame hu hv) hadj.ne
  · intro u v hadj hu hv
    exact absurd (hsame hu hv) hadj.ne

namespace Growing

lemma parent_eq [DecidableEq V] (hv : ¬ f.holds v) {x y : V} (hx : f.holds x)
    (hy : f.holds y) :
    (parentGraph root (Function.update parent v u)).Adj x y ↔
      (parentGraph root parent).Adj x y := by
  have hxv : x ≠ v := fun he => hv (he ▸ hx)
  have hyv : y ≠ v := fun he => hv (he ▸ hy)
  rw [parentGraph_adj, parentGraph_adj, Function.update_of_ne hxv, Function.update_of_ne hyv]

/-- The new holder is linked to the one it got the payload from, and to no other holder. -/
lemma new_adj [DecidableEq V] (h : Growing G root parent rank f) (hv : ¬ f.holds v) (huv : u ≠ v)
    {y : V} (hy : f.holds y) :
    (parentGraph root (Function.update parent v u)).Adj v y ↔ y = u := by
  have hyv : y ≠ v := fun he => hv (he ▸ hy)
  have hroot : v ≠ root := fun he => hv (he ▸ h.root_holds)
  rw [parentGraph_adj, Function.update_self, Function.update_of_ne hyv]
  constructor
  · rintro ⟨_, ⟨_, he⟩ | ⟨hr, he⟩⟩
    · exact he.symm
    · exact absurd (he ▸ (h.parents y hy hr).2.1) hv
  · rintro rfl
    exact ⟨huv.symm, .inl ⟨hroot, rfl⟩⟩

lemma first [DecidableEq V] (h : Growing G root parent rank f) (hf : First G u v f f') :
    Growing G root (Function.update parent v u) (Function.update rank v (rank u + 1)) f' := by
  have huv : u ≠ v := hf.adj.ne
  have hu : f.holds u := h.crossing_holds u v hf.sent
  have hv := hf.new
  have hold : ∀ {x}, f'.holds x → x ≠ v → f.holds x := fun hx hne =>
    ((hf.holds _).mp hx).resolve_right hne
  have hzero : ∀ y, f.crossing v y = 0 := fun y => by
    by_contra hne
    exact hv (h.crossing_holds v y (Nat.pos_of_ne_zero hne))
  have hone := (h.frontier u v hf.adj hu hv).1
  refine ⟨(hf.holds root).mpr (.inl h.root_holds), ?_, ?_, ?_, ?_, ?_, ?_, ?_, ?_⟩
  · intro x hx hr
    by_cases hxv : x = v
    · subst hxv
      rw [Function.update_self, Function.update_self, Function.update_of_ne huv]
      exact ⟨hf.adj, (hf.holds u).mpr (.inl hu), Nat.lt_succ_self _⟩
    · obtain ⟨ha, hh, hlt⟩ := h.parents x (hold hx hxv) hr
      have hpv : parent x ≠ v := fun he => hv (he ▸ hh)
      rw [Function.update_of_ne hxv, Function.update_of_ne hxv, Function.update_of_ne hpv]
      exact ⟨ha, (hf.holds _).mpr (.inl hh), hlt⟩
  · intro x y
    rw [hf.eager, hf.lazy]
    exact h.known x y
  · intro x y hxy
    rw [hf.holds]
    by_cases hxv : x = v
    · exact .inr hxv
    · left
      by_cases he : (x, y) = (u, v)
      · cases he
        exact hu
      · rw [hf.crossing x y he hxv] at hxy
        exact h.crossing_holds x y hxy
  · intro x y hxy
    obtain ⟨hx, hy, hn⟩ := h.pruning_holds x y (hf.pruning x y hxy)
    refine ⟨(hf.holds x).mpr (.inl hx), (hf.holds y).mpr (.inl hy), ?_⟩
    rwa [parent_eq hv hx hy]
  · intro x y hx
    rw [hf.lazy]
    exact h.unaware x y fun hx' => hx ((hf.holds x).mpr (.inl hx'))
  · intro x y hxy hx hy
    rw [hf.lazy]
    have hyv : y ≠ v := fun he => hy ((hf.holds y).mpr (.inr he))
    have hy' : ¬ f.holds y := fun h' => hy ((hf.holds y).mpr (.inl h'))
    by_cases hxv : x = v
    · subst hxv
      have hyu : y ≠ u := fun he => hy' (he ▸ hu)
      exact ⟨by rw [hf.pushed y hyu hxy, hzero], h.unaware x y hv⟩
    · have hne : (x, y) ≠ (u, v) := fun he => hyv (congrArg Prod.snd he)
      rw [hf.crossing x y hne hxv]
      exact h.frontier x y hxy (hold hx hxv) hy'
  · intro x y hx hy hadj
    rw [hf.lazy]
    by_cases hxv : x = v
    · subst hxv
      have hyx : y ≠ x := hadj.ne.symm
      have hyu := (h.new_adj hv huv (hold hy hyx)).mp hadj
      subst hyu
      exact ⟨by rw [hf.back, hzero], h.unaware x y hv⟩
    · have hx' := hold hx hxv
      by_cases hyv : y = v
      · subst hyv
        have hxu := (h.new_adj hv huv hx').mp hadj.symm
        subst hxu
        have hused := hf.used
        exact ⟨by omega, (h.frontier x y hf.adj hx' hv).2⟩
      · have hne : (x, y) ≠ (u, v) := fun he => hyv (congrArg Prod.snd he)
        rw [hf.crossing x y hne hxv]
        exact h.tree x y hx' (hold hy hyv) ((parent_eq hv hx' (hold hy hyv)).mp hadj)
  · intro x y hxy hx hy hadj
    rw [hf.lazy, hf.eager]
    by_cases hxv : x = v
    · subst hxv
      have hyx : y ≠ x := hxy.ne.symm
      have hyu : y ≠ u := fun he => hadj ((h.new_adj hv huv (hold hy hyx)).mpr he)
      rw [hf.pushed y hyu hxy]
      exact .inl (Nat.succ_pos _)
    · have hx' := hold hx hxv
      by_cases hyv : y = v
      · subst hyv
        have hxu : x ≠ u := fun he => hadj ((h.new_adj hv huv hx').mpr he).symm
        have hne : (x, y) ≠ (u, y) := fun he => hxu (congrArg Prod.fst he)
        rw [hf.crossing x y hne hxv, (h.frontier x y hxy hx' hv).1]
        exact .inl Nat.one_pos
      · have hne : (x, y) ≠ (u, v) := fun he => hyv (congrArg Prod.snd he)
        rw [hf.crossing x y hne hxv]
        refine h.cross x y hxy hx' (hold hy hyv) fun ha => hadj ?_
        exact (parent_eq hv hx' (hold hy hyv)).mpr ha

/-- A link that is given up between two holders was no link of the tree. -/
lemma demoted (h : Growing G root parent rank f) (hf : Demoted u v f f') (hu : f.holds u)
    (hv : f.holds v) (hadj : G.Adj u v) (hn : ¬ (parentGraph root parent).Adj u v) :
    Growing G root parent rank f' := by
  have hnot : ∀ {x y}, (parentGraph root parent).Adj x y → (x, y) ≠ (u, v) ∧ (x, y) ≠ (v, u) := by
    intro x y hxy
    refine ⟨?_, ?_⟩ <;> rintro he <;> cases he
    · exact hn hxy
    · exact hn hxy.symm
  refine ⟨(hf.holds root).mpr h.root_holds, ?_, ?_, ?_, ?_, ?_, ?_, ?_, ?_⟩
  · intro x hx hr
    rw [hf.holds] at hx ⊢
    exact h.parents x hx hr
  · intro x y
    rw [hf.eager, hf.lazy, h.known]
    by_cases he : (x, y) = (v, u)
    · cases he
      have hk := (h.known v u).mp hadj.symm
      simp [hk]
    · simp [he]
  · intro x y hxy
    rw [hf.holds]
    by_cases he : (x, y) = (u, v)
    · cases he
      exact hu
    · rw [hf.crossing x y he] at hxy
      exact h.crossing_holds x y hxy
  · intro x y hxy
    rw [hf.holds, hf.holds]
    rcases hf.pruning x y hxy with hxy | he
    · exact h.pruning_holds x y hxy
    · cases he
      exact ⟨hv, hu, fun ha => hn ha.symm⟩
  · intro x y hx
    rw [hf.holds] at hx
    rw [hf.lazy]
    rintro (hl | he)
    · exact h.unaware x y hx hl
    · cases he
      exact hx hv
  · intro x y hxy hx hy
    rw [hf.holds] at hx hy
    have hne : (x, y) ≠ (u, v) := fun he => hy (by cases he; exact hv)
    have hne' : (x, y) ≠ (v, u) := fun he => hy (by cases he; exact hu)
    obtain ⟨hone, hl⟩ := h.frontier x y hxy hx hy
    rw [hf.crossing x y hne, hf.lazy]
    exact ⟨hone, fun hl' => hl'.elim hl hne'⟩
  · intro x y hx hy hadj
    rw [hf.holds] at hx hy
    obtain ⟨hne, hne'⟩ := hnot hadj
    obtain ⟨hzero, hl⟩ := h.tree x y hx hy hadj
    rw [hf.crossing x y hne, hf.lazy]
    exact ⟨hzero, fun hl' => hl'.elim hl hne'⟩
  · intro x y hxy hx hy hadj
    rw [hf.holds] at hx hy
    rw [hf.lazy, hf.eager]
    by_cases he : (x, y) = (u, v)
    · cases he
      exact .inr ⟨.inr rfl, fun hl => hl.2 rfl⟩
    · rw [hf.crossing x y he]
      exact (h.cross x y hxy hx hy hadj).imp_right fun hl => ⟨.inl hl.1, fun hl' => hl.2 hl'.1⟩

/-- A payload that crosses to a holder does not cross a link of the tree. -/
lemma not_adj_of_crossing (h : Growing G root parent rank f) (hc : 0 < f.crossing u v)
    (hv : f.holds v) : ¬ (parentGraph root parent).Adj u v := by
  intro ha
  have hzero := (h.tree u v (h.crossing_holds u v hc) hv ha).1
  omega

section Rest

variable (h : Growing G root parent rank f) (hconn : G.Connected)
  (hrest : ∀ u v, f.crossing u v = 0)

include h hconn hrest

lemma all_hold (v : V) : f.holds v := by
  obtain ⟨walk⟩ := hconn root v
  have hstep : ∀ {x y : V}, G.Walk x y → f.holds x → f.holds y := by
    intro x y walk hx
    induction walk with
    | nil => exact hx
    | @cons x z y hadj _ ih =>
      refine ih ?_
      by_contra hz
      have hone := (h.frontier x z hadj hx hz).1
      have hzero := hrest x z
      omega
  exact hstep walk h.root_holds

lemma eager_iff (u v : V) : f.eager u v ↔ (parentGraph root parent).Adj u v := by
  have hu := h.all_hold hconn hrest u
  have hv := h.all_hold hconn hrest v
  constructor
  · intro he
    have hadj := (h.known u v).mpr (.inl he)
    by_contra hn
    rcases h.cross v u hadj.symm hv hu (fun ha => hn ha.symm) with hc | ⟨_, hc⟩
    · have hzero := hrest v u
      omega
    · exact hc he
  · intro ha
    have hG : G.Adj u v := by
      rcases ha.2 with ⟨hr, hp⟩ | ⟨hr, hp⟩
      · exact hp ▸ (h.parents u hu hr).1.symm
      · exact hp ▸ (h.parents v hv hr).1
    exact ((h.known u v).mp hG).resolve_right (h.tree u v hu hv ha).2

lemma at_rest [Finite V] : (parentGraph root parent).IsTree ∧ parentGraph root parent ≤ G ∧
    ∀ u v, G.Adj u v → ¬ (parentGraph root parent).Adj u v → f.lazy u v := by
  refine ⟨parentGraph_isTree fun v hv => (h.parents v (h.all_hold hconn hrest v) hv).2.2, ?_, ?_⟩
  · intro u v ha
    exact (h.known u v).mpr (.inl ((h.eager_iff hconn hrest u v).mpr ha))
  · intro u v hadj hn
    exact ((h.known u v).mp hadj).resolve_left fun he => hn ((h.eager_iff hconn hrest u v).mp he)

end Rest

end Growing

end Flood

end QuicP2p.Library
