import QuicP2p.Library.Stops
import QuicP2p.Hyparview.Effects

/-! What the operations on the views come to, and where they draw from an empty view. -/

namespace QuicP2p.Hyparview.Node

open Library

variable {T R : Type}

def Knows (n : Node T R) (x : T) : Prop := x ∈ n.activeView ∨ x ∈ n.passiveView ∨ x = n.id

/-- The passive view has no place for another node and no node to evict. -/
def PassiveBarred (n : Node T R) : Prop :=
  n.options.maxPassiveViewSize.toNat = 0 ∧ n.passiveView = []

/-- The active view is full, and either it has no node to evict or the evicted node finds no
place in the passive view. -/
def ActiveBarred (n : Node T R) : Prop :=
  n.isActiveViewFull ∧ (n.activeView = [] ∨ n.PassiveBarred)

/-- The change keeps the members of the active view and queues no action. -/
structure Keeps (n m : Node T R) : Prop where
  sound : n.Sound → m.Sound
  wellFormed : n.WellFormed → m.WellFormed
  id_eq : m.id = n.id
  options_eq : m.options = n.options
  actions_eq : m.actions = n.actions
  active_perm : m.activeView.Perm n.activeView

/-- The change also keeps the length of a passive view that may hold no node. -/
structure Restocks (n m : Node T R) : Prop extends Keeps n m where
  stock : n.options.maxPassiveViewSize.toNat = 0 → m.passiveView.length = n.passiveView.length

variable {n m k : Node T R} {x : T} {p v : List T}

lemma passive_full_iff : n.isPassiveViewFull = true ↔
    n.options.maxPassiveViewSize.toNat ≤ n.passiveView.length := decide_eq_true_iff

lemma active_full_iff : n.isActiveViewFull = true ↔
    n.options.maxActiveViewSize.toNat ≤ n.activeView.length := decide_eq_true_iff

lemma not_knows_iff : ¬ n.Knows x ↔ n.Stranger x ∧ x ∉ n.passiveView := by
  rw [Knows, Stranger, not_or, not_or]
  tauto

lemma Stranger.not_knows (h : n.Stranger x) (hb : n.PassiveBarred) : ¬ n.Knows x :=
  not_knows_iff.mpr ⟨h, by simp [hb.2]⟩

lemma WellFormed.not_passiveBarred (h : n.WellFormed) : ¬ n.PassiveBarred := fun hb => by
  have hpos := h.passive_pos
  rw [hb.1] at hpos
  omega

lemma WellFormed.not_activeBarred (h : n.WellFormed) : ¬ n.ActiveBarred := by
  rintro ⟨hf, he | hb⟩
  · have hpos := h.active_pos
    rw [active_full_iff, he, List.length_nil] at hf
    omega
  · exact h.not_passiveBarred hb

namespace Keeps

lemma refl (n : Node T R) : Keeps n n := ⟨fun h => h, fun h => h, rfl, rfl, rfl, .refl _⟩

lemma trans (h : Keeps n m) (h' : Keeps m k) : Keeps n k :=
  ⟨h'.sound ∘ h.sound, h'.wellFormed ∘ h.wellFormed, h'.id_eq.trans h.id_eq,
    h'.options_eq.trans h.options_eq, h'.actions_eq.trans h.actions_eq,
    h'.active_perm.trans h.active_perm⟩

lemma stranger_iff (h : Keeps n m) : m.Stranger x ↔ n.Stranger x := by
  rw [Stranger, Stranger, h.active_perm.mem_iff, h.id_eq]

lemma effect [DecidableEq T] {silent : T → Prop} (h : Keeps n m) : Effect silent n m [] :=
  .of_perm h.id_eq h.options_eq h.actions_eq h.active_perm

lemma evolves [DecidableEq T] {silent : T → Prop} (h : Keeps n m) (hn : n.WellFormed) :
    Evolves silent n m := ⟨h.wellFormed hn, [], h.effect⟩

end Keeps

namespace Restocks

lemma of_perm (hi : m.id = n.id) (ho : m.options = n.options) (hs : m.actions = n.actions)
    (ha : m.activeView.Perm n.activeView) (hp : m.passiveView.Perm n.passiveView) :
    Restocks n m where
  sound h := h.congr hi ha hp
  wellFormed h := h.congr hi ho ha hp
  id_eq := hi
  options_eq := ho
  actions_eq := hs
  active_perm := ha
  stock _ := hp.length_eq

lemma refl (n : Node T R) : Restocks n n := of_perm rfl rfl rfl (.refl _) (.refl _)

lemma trans (h : Restocks n m) (h' : Restocks m k) : Restocks n k :=
  ⟨h.toKeeps.trans h'.toKeeps, fun hz => (h'.stock (h.options_eq ▸ hz)).trans (h.stock hz)⟩

lemma passiveBarred_iff (h : Restocks n m) : m.PassiveBarred ↔ n.PassiveBarred := by
  rw [PassiveBarred, PassiveBarred, h.options_eq]
  apply and_congr_right
  intro hz
  rw [← List.length_eq_zero_iff, h.stock hz, List.length_eq_zero_iff]

lemma activeBarred_iff (h : Restocks n m) : m.ActiveBarred ↔ n.ActiveBarred := by
  have hfull : m.isActiveViewFull = n.isActiveViewFull := by
    rw [isActiveViewFull, isActiveViewFull, h.options_eq, h.active_perm.length_eq]
  rw [ActiveBarred, ActiveBarred, hfull, h.passiveBarred_iff, ← List.length_eq_zero_iff,
    h.active_perm.length_eq, List.length_eq_zero_iff]

end Restocks

lemma restocks_rng (n : Node T R) (g : R) : Restocks n { n with rng := g } :=
  .of_perm rfl rfl rfl (.refl _) (.refl _)

/-- The node without `x` in its active view, and with what it queues about that. -/
def departed (n : Node T R) (v : List T) (x : T) (alive : Bool) : Node T R :=
  { n with activeView := v, actions := n.actions ++ departure n.id x alive }

/-- The node with `x` at the end of its active view, and with what it queues about that. -/
def joined (n : Node T R) (p : List T) (x : T) (highPriority : Bool) : Node T R :=
  { n with
    activeView := n.activeView ++ [x]
    passiveView := p
    actions := n.actions ++ arrival n.id x highPriority }

lemma Sound.departed (h : n.Sound) (hv : n.activeView.Perm (x :: v)) (alive : Bool) :
    (n.departed v x alive).Sound := h.drop_active hv _

lemma WellFormed.departed (h : n.WellFormed) (hv : n.activeView.Perm (x :: v)) (alive : Bool) :
    (n.departed v x alive).WellFormed := h.drop_active hv _

lemma Sound.stranger_departed (h : n.Sound) (hv : n.activeView.Perm (x :: v)) (alive : Bool) :
    (n.departed v x alive).Stranger x := by
  refine ⟨(List.nodup_cons.mp (hv.nodup_iff.mp h.active_nodup)).1, fun he => h.id_active ?_⟩
  exact hv.mem_iff.mpr (he ▸ List.mem_cons_self)

lemma not_knows_departed (h : n.Sound) (hv : n.activeView.Perm (x :: v)) (alive : Bool) :
    ¬ (n.departed v x alive).Knows x :=
  not_knows_iff.mpr
    ⟨h.stranger_departed hv alive, h.disjoint x (hv.mem_iff.mpr List.mem_cons_self)⟩

/-- What a request to fill the active view comes to. -/
inductive Filled (n : Node T R) : Node T R → Prop
  | idle (h : n.isActiveViewFull = true ∨ n.passiveView = []) : Filled n n
  | asked {x : T} {g : R} (hf : ¬ n.isActiveViewFull = true) (hx : x ∈ n.passiveView) :
      Filled n ({ n with rng := g }.send x (.neighbor ⟨n.id, n.activeView.isEmpty⟩))

lemma Filled.views (h : Filled n m) :
    m.activeView = n.activeView ∧ m.passiveView = n.passiveView ∧ m.options = n.options ∧
      m.id = n.id := by
  cases h with
  | idle => exact ⟨rfl, rfl, rfl, rfl⟩
  | asked => exact ⟨rfl, rfl, rfl, rfl⟩

lemma Filled.sound (hm : Filled n m) (h : n.Sound) : m.Sound := by
  cases hm with
  | idle => exact h
  | asked => exact h.congr rfl (.refl _) (.refl _)

section unlisted

variable [DecidableEq T]

lemma Sound.not_mem_unlisted (h : n.Sound) (hp : p.Perm (n.passiveView.erase x)) : x ∉ p := by
  rw [hp.mem_iff]
  exact h.passive_nodup.not_mem_erase

lemma keeps_unlisted (hp : p.Perm (n.passiveView.erase x)) :
    Keeps n { n with passiveView := p } := by
  have hsub : ∀ y ∈ p, y ∈ n.passiveView := fun y hy => List.mem_of_mem_erase (hp.mem_iff.mp hy)
  have hsound : n.Sound → { n with passiveView := p }.Sound := fun h =>
    ⟨h.active_nodup, hp.nodup_iff.mpr (h.passive_nodup.erase x),
      fun y hy hyp => h.disjoint y hy (hsub y hyp), h.id_active, fun hi => h.id_passive (hsub _ hi)⟩
  refine ⟨hsound, fun h => (hsound h.sound).wellFormed h rfl h.active_le ?_, rfl, rfl, rfl,
    .refl _⟩
  exact (hp.length_eq.trans_le List.length_erase_le).trans h.passive_le

lemma Sound.joined (h : n.Sound) (hx : n.Stranger x) (hp : p.Perm (n.passiveView.erase x))
    (highPriority : Bool) : (n.joined p x highPriority).Sound :=
  ((keeps_unlisted hp).sound h).push_active hx (h.not_mem_unlisted hp) _

lemma removeFromPassiveView_removed (n : Node T R) (x : T) :
    Yields (n.removeFromPassiveView x) (fun m => ∃ p, m = { n with passiveView := p } ∧
      p.Perm (n.passiveView.erase x)) := by
  unfold removeFromPassiveView
  split
  next i hi =>
    obtain ⟨hlt, hx, _⟩ := List.idxOf?_eq_some_iff.mp hi
    obtain rfl : n.passiveView[i] = x := by simpa using hx
    obtain ⟨p, hp⟩ := swapRemove_of_lt hlt
    simp only [hp, orPanic_some, ok_bind]
    refine .ok ⟨p, rfl, ?_⟩
    exact (List.cons_perm_iff_perm_erase.mp (swapRemove_perm hp).symm).2
  next hi =>
    refine .ok ⟨n.passiveView, rfl, ?_⟩
    rw [List.erase_of_not_mem (List.idxOf?_eq_none_iff.mp hi)]

end unlisted

variable [Rng R]

lemma randomRange_of_pos (n : Node T R) {k : ℕ} (hk : 0 < k) : n.randomRange k =
    .ok ((Rng.randomRange k n.rng).1, { n with rng := (Rng.randomRange k n.rng).2 }) :=
  if_neg hk.ne'

lemma randomRange_spec (n : Node T R) {k : ℕ} (hk : 0 < k) :
    Yields (n.randomRange k) (fun r => r.1 < k ∧ ∃ g, r.2 = { n with rng := g }) := by
  rw [randomRange_of_pos n hk]
  exact .ok ⟨Rng.randomRange_lt k n.rng hk, _, rfl⟩

lemma shufflePassive_restocks (n : Node T R) : Restocks n n.shufflePassive :=
  .of_perm rfl rfl rfl (.refl _) (Rng.shuffle_perm _ _)

lemma shuffleActive_restocks (n : Node T R) : Restocks n n.shuffleActive :=
  .of_perm rfl rfl rfl (Rng.shuffle_perm _ _) (.refl _)

lemma shuffled_restocks {g : R}
    (hk : k = ({ n with rng := g } : Node T R).shufflePassive.shuffleActive) : Restocks n k := by
  rw [hk]
  exact (restocks_rng n g).trans ((shufflePassive_restocks _).trans (shuffleActive_restocks _))

lemma selectRandomFromActiveView_spec (n : Node T R) :
    Yields n.selectRandomFromActiveView (fun r =>
      (r.1 = none ∧ n.activeView = [] ∧ r.2 = n) ∨
        ∃ x ∈ n.activeView, r.1 = some x ∧ ∃ g, r.2 = { n with rng := g }) := by
  unfold selectRandomFromActiveView
  split
  next he => exact .ok (.inl ⟨rfl, List.isEmpty_iff.mp he, rfl⟩)
  next he =>
    refine (randomRange_spec n (List.length_pos_iff.mpr (mt List.isEmpty_iff.mpr he))).bind ?_
    rintro ⟨i, _⟩ ⟨hi, g, rfl⟩
    simp only [List.getElem?_eq_getElem hi, orPanic_some]
    exact .ok (.inr ⟨_, List.getElem_mem hi, rfl, g, rfl⟩)

lemma selectRandomFromPassiveView_spec (n : Node T R) :
    Yields n.selectRandomFromPassiveView (fun r =>
      (r.1 = none ∧ n.passiveView = [] ∧ r.2 = n) ∨
        ∃ x ∈ n.passiveView, r.1 = some x ∧ ∃ g, r.2 = { n with rng := g }) := by
  unfold selectRandomFromPassiveView
  split
  next he => exact .ok (.inl ⟨rfl, List.isEmpty_iff.mp he, rfl⟩)
  next he =>
    refine (randomRange_spec n (List.length_pos_iff.mpr (mt List.isEmpty_iff.mpr he))).bind ?_
    rintro ⟨i, _⟩ ⟨hi, g, rfl⟩
    simp only [List.getElem?_eq_getElem hi, orPanic_some]
    exact .ok (.inr ⟨_, List.getElem_mem hi, rfl, g, rfl⟩)

lemma fillActiveView_filled (n : Node T R) : Yields n.fillActiveView (Filled n) := by
  unfold fillActiveView
  split
  next hf => exact .ok (.idle (.inl hf))
  next hf =>
    refine (selectRandomFromPassiveView_spec n).bind ?_
    rintro ⟨_, _⟩ (⟨rfl, he, rfl⟩ | ⟨x, hx, rfl, g, rfl⟩)
    · exact .ok (.idle (.inr he))
    · exact .ok (.asked hf hx)

/-- What an addition to the passive view comes to. -/
inductive Added (n : Node T R) (x : T) : Node T R → Prop
  | known (h : n.Knows x) : Added n x n
  | stored (h : ¬ n.Knows x) (hf : ¬ n.isPassiveViewFull = true) :
      Added n x { n with passiveView := n.passiveView ++ [x] }
  | replaced {z : T} {p : List T} (h : ¬ n.Knows x) (hf : n.isPassiveViewFull = true)
      (hp : n.passiveView.Perm (z :: p))
      (hz : n.passiveView[(Rng.randomRange n.passiveView.length n.rng).1]? = some z) :
      Added n x { n with
        passiveView := p ++ [x]
        rng := (Rng.randomRange n.passiveView.length n.rng).2 }

namespace Added

lemma same (h : Added n x m) :
    m.activeView = n.activeView ∧ m.id = n.id ∧ m.options = n.options := by
  cases h with
  | known => exact ⟨rfl, rfl, rfl⟩
  | stored => exact ⟨rfl, rfl, rfl⟩
  | replaced => exact ⟨rfl, rfl, rfl⟩

lemma restocks (h : Added n x m) : Restocks n m := by
  cases h with
  | known => exact .refl n
  | stored hx hf =>
    rw [passive_full_iff, not_le] at hf
    have hx := not_knows_iff.mp hx
    refine ⟨⟨fun h => h.push_passive hx.1 hx.2, fun h => ?_, rfl, rfl, rfl, .refl _⟩,
      fun hz => by omega⟩
    refine (h.sound.push_passive hx.1 hx.2).wellFormed h rfl h.active_le ?_
    rw [List.length_append, List.length_singleton]
    exact hf
  | @replaced z p hx hf hp =>
    have hx := not_knows_iff.mp hx
    have hxp : x ∉ p := fun hm => hx.2 (hp.mem_iff.mpr (List.mem_cons_of_mem _ hm))
    have hlen : (p ++ [x]).length = n.passiveView.length := by
      rw [hp.length_eq, List.length_append, List.length_singleton, List.length_cons]
    have hsound : n.Sound → { n with
        passiveView := p ++ [x]
        rng := (Rng.randomRange n.passiveView.length n.rng).2 }.Sound :=
      fun h => (h.drop_passive _ hp).push_passive hx.1 hxp
    refine ⟨⟨hsound, fun h => ?_, rfl, rfl, rfl, .refl _⟩, fun _ => hlen⟩
    exact (hsound h.sound).wellFormed h rfl h.active_le (hlen.trans_le h.passive_le)

lemma keeps (h : Added n x m) : Keeps n m := h.restocks.toKeeps

lemma mem (h : Added n x m) (hx : n.Stranger x) : x ∈ m.passiveView := by
  cases h with
  | known h => exact (h.resolve_left hx.1).resolve_right hx.2
  | stored => exact List.mem_append_right _ List.mem_cons_self
  | replaced => exact List.mem_append_right _ List.mem_cons_self

end Added

/-- What an addition to the passive view comes to that is made under a condition. -/
inductive AddedIf (c : Prop) (n : Node T R) (x : T) : Node T R → Prop
  | added {m : Node T R} (h : c) (hm : Added n x m) : AddedIf c n x m
  | spared (h : ¬ c) : AddedIf c n x n

lemma AddedIf.restocks {c : Prop} (h : AddedIf c n x m) : Restocks n m := by
  cases h with
  | added _ hm => exact hm.restocks
  | spared => exact .refl n

lemma AddedIf.active_eq {c : Prop} (h : AddedIf c n x m) : m.activeView = n.activeView := by
  cases h with
  | added _ hm => exact hm.same.1
  | spared => rfl

/-- What a list of additions to the passive view comes to. -/
inductive Stocked : Node T R → List T → Node T R → Prop
  | nil {n : Node T R} : Stocked n [] n
  | cons {n m k : Node T R} {x : T} {xs : List T} (h : Added n x m) (ht : Stocked m xs k) :
      Stocked n (x :: xs) k

lemma Stocked.restocks {xs : List T} (h : Stocked n xs m) : Restocks n m := by
  induction h with
  | nil => exact .refl _
  | cons h _ ih => exact h.restocks.trans ih

/-- What making room in the active view comes to. -/
inductive Vacated (n : Node T R) : Node T R → Prop
  | room (hf : ¬ n.isActiveViewFull = true) : Vacated n n
  | evicted {x : T} {v : List T} {m : Node T R} (hf : n.isActiveViewFull = true)
      (hv : n.activeView.Perm (x :: v))
      (hm : Added { n.departed v x true with
        rng := (Rng.randomRange n.activeView.length n.rng).2 } x m) : Vacated n m

namespace Vacated

lemma same (h : Vacated n m) : m.id = n.id ∧ m.options = n.options := by
  cases h with
  | room => exact ⟨rfl, rfl⟩
  | evicted _ _ hm => exact hm.same.2

lemma subset (h : Vacated n m) {y : T} (hy : y ∈ m.activeView) : y ∈ n.activeView := by
  cases h with
  | room => exact hy
  | evicted _ hv hm =>
    rw [hm.same.1] at hy
    exact hv.mem_iff.mpr (List.mem_cons_of_mem _ hy)

lemma sound (h : Vacated n m) (hn : n.Sound) : m.Sound := by
  cases h with
  | room => exact hn
  | evicted _ hv hm => exact hm.keeps.sound ((restocks_rng _ _).sound (hn.departed hv true))

lemma stranger (h : Vacated n m) (hx : n.Stranger x) : m.Stranger x :=
  ⟨fun ha => hx.1 (h.subset ha), fun he => hx.2 (he.trans h.same.1)⟩

end Vacated

variable [DecidableEq T]

/-- What an admission to the active view comes to. -/
inductive Admitted (n : Node T R) (x : T) (highPriority : Bool) : Node T R → Prop
  | known (h : x ∈ n.activeView ∨ x = n.id) : Admitted n x highPriority n
  | joined {k : Node T R} {p : List T} (hx : n.Stranger x) (hk : Vacated n k)
      (hp : p.Perm (k.passiveView.erase x)) : Admitted n x highPriority (k.joined p x highPriority)

namespace Admitted

variable {highPriority : Bool}

lemma same (h : Admitted n x highPriority m) : m.id = n.id ∧ m.options = n.options := by
  cases h with
  | known => exact ⟨rfl, rfl⟩
  | joined _ hk _ => exact hk.same

lemma sound (h : Admitted n x highPriority m) (hn : n.Sound) : m.Sound := by
  cases h with
  | known => exact hn
  | joined hx hk hp => exact (hk.sound hn).joined (hk.stranger hx) hp highPriority

lemma admitted (h : Admitted n x highPriority m) : x ∈ m.activeView ∨ x = n.id := by
  cases h with
  | known h => exact h
  | joined => exact .inl (List.mem_append_right _ List.mem_cons_self)

lemma subset (h : Admitted n x highPriority m) {y : T} (hy : y ∈ m.activeView) :
    y ∈ n.activeView ∨ y = x := by
  cases h with
  | known => exact .inl hy
  | joined _ hk _ =>
    rcases List.mem_append.mp hy with hy | hy
    · exact .inl (hk.subset hy)
    · exact .inr (List.mem_singleton.mp hy)

end Admitted

lemma addToPassiveView_added (n : Node T R) (x : T) :
    StopsIf (n.Stranger x ∧ n.PassiveBarred) (n.addToPassiveView x) (Added n x) := by
  unfold addToPassiveView
  split
  next hx => exact .of_yields (.ok (.known hx)) fun hc => hc.1.not_knows hc.2 hx
  next hx =>
    have hx : ¬ n.Knows x := hx
    rw [and_iff_right (not_knows_iff.mp hx).1]
    unfold removeRandomFromPassiveViewIfFull
    split
    next hf =>
      by_cases he : n.passiveView = []
      · have hb : n.PassiveBarred := by
          rw [passive_full_iff, he, List.length_nil] at hf
          exact ⟨Nat.le_zero.mp hf, he⟩
        exact ⟨fun _ => ⟨.emptyRange, by simp [randomRange, he, Bind.bind, Except.bind]⟩,
          fun hno => absurd hb hno⟩
      · have hl := List.length_pos_iff.mpr he
        have hi := Rng.randomRange_lt n.passiveView.length n.rng hl
        obtain ⟨p, hp⟩ := swapRemove_of_lt hi
        simp only [randomRange_of_pos n hl, ok_bind, hp, orPanic_some]
        exact .of_yields
          (.ok (.replaced hx hf (swapRemove_perm hp) (List.getElem?_eq_getElem hi)))
          fun hb => he hb.2
    next hf =>
      refine .of_yields (.ok (.stored hx hf)) fun hb => hf (passive_full_iff.mpr ?_)
      rw [hb.1]
      exact Nat.zero_le _

lemma addToPassiveView_of_room (h : ¬ n.Knows x) (hf : ¬ n.isPassiveViewFull = true) :
    n.addToPassiveView x = .ok { n with passiveView := n.passiveView ++ [x] } := by
  have hx : ¬ (x ∈ n.activeView ∨ x ∈ n.passiveView ∨ x = n.id) := h
  rw [addToPassiveView, if_neg hx, removeRandomFromPassiveViewIfFull, if_neg hf]
  rfl

lemma addToPassiveView_if (n : Node T R) (x : T) (c : Prop) [Decidable c] :
    StopsIf (c ∧ n.Stranger x ∧ n.PassiveBarred) (if c then n.addToPassiveView x else .ok n)
      (AddedIf c n x) := by
  split
  next hc =>
    exact ((addToPassiveView_added n x).mono fun _ hm => .added hc hm).congr
      (and_iff_right hc).symm
  next hc => exact .of_yields (.ok (.spared hc)) fun h => hc h.1

lemma addShuffledNodesToPassiveView_stocked (n : Node T R) (nodes : List T) :
    StopsIf (n.PassiveBarred ∧ ∃ x ∈ nodes, n.Stranger x)
      (n.addShuffledNodesToPassiveView nodes) (Stocked n nodes) := by
  unfold addShuffledNodesToPassiveView
  induction nodes generalizing n with
  | nil => exact .of_yields (.pure .nil) (by simp)
  | cons x nodes ih =>
    rw [List.foldlM_cons]
    have htail : ∀ m, ¬ (n.Stranger x ∧ n.PassiveBarred) → Added n x m →
        StopsIf (n.PassiveBarred ∧ ∃ y ∈ nodes, n.Stranger y)
          (nodes.foldlM (fun n node => n.addToPassiveView node) m) (Stocked n (x :: nodes)) := by
      intro m _ hm
      refine ((ih m).mono fun k hk => .cons hm hk).congr ?_
      simp only [hm.restocks.passiveBarred_iff, hm.keeps.stranger_iff]
    refine ((addToPassiveView_added n x).bind htail).congr ?_
    simp only [List.mem_cons, exists_eq_or_imp]
    tauto

lemma removeFromActiveViewByIndex_eq (n : Node T R) {i : ℕ} (hi : i < n.activeView.length)
    (alive : Bool) : ∃ v, n.activeView.Perm (n.activeView[i] :: v) ∧
      n.removeFromActiveViewByIndex i alive =
        (n.departed v n.activeView[i] alive).addToPassiveView n.activeView[i] := by
  obtain ⟨v, hv⟩ := swapRemove_of_lt hi
  refine ⟨v, swapRemove_perm hv, ?_⟩
  simp only [removeFromActiveViewByIndex, hv, orPanic_some, ok_bind]
  congr 1
  cases alive <;> simp [departed, departure, Node.send, pushBack]

lemma removeFromActiveViewByIndex_added (h : n.Sound) {i : ℕ} (hi : i < n.activeView.length)
    (alive : Bool) :
    StopsIf n.PassiveBarred (n.removeFromActiveViewByIndex i alive) (fun m =>
      ∃ v, n.activeView.Perm (n.activeView[i] :: v) ∧
        Added (n.departed v n.activeView[i] alive) n.activeView[i] m) := by
  obtain ⟨v, hperm, heq⟩ := n.removeFromActiveViewByIndex_eq hi alive
  rw [heq]
  refine ((addToPassiveView_added _ _).congr ?_).mono fun m hm => ⟨v, hperm, hm⟩
  exact and_iff_right (h.stranger_departed hperm alive)

lemma removeRandomFromActiveViewIfFull_vacated (h : n.Sound) :
    StopsIf n.ActiveBarred n.removeRandomFromActiveViewIfFull (Vacated n) := by
  unfold removeRandomFromActiveViewIfFull
  split
  next hf =>
    by_cases he : n.activeView = []
    · refine ⟨fun _ => ⟨.emptyRange, ?_⟩, fun hb => absurd ⟨hf, .inl he⟩ hb⟩
      simp [randomRange, he, Bind.bind, Except.bind]
    · have hb : n.ActiveBarred ↔ n.PassiveBarred := by
        simp [ActiveBarred, hf, he]
      have hl := List.length_pos_iff.mpr he
      rw [randomRange_of_pos n hl, ok_bind, hb]
      have hg := (restocks_rng n (Rng.randomRange n.activeView.length n.rng).2).sound h
      refine (removeFromActiveViewByIndex_added hg (Rng.randomRange_lt _ n.rng hl) true).mono ?_
      rintro m ⟨v, hperm, hm⟩
      exact .evicted hf hperm hm
  next hf => exact .of_yields (.ok (.room hf)) fun hb => hf hb.1

lemma addToActiveView_admitted (h : n.Sound) (x : T) (highPriority : Bool) :
    StopsIf (n.Stranger x ∧ n.ActiveBarred) (n.addToActiveView x highPriority)
      (Admitted n x highPriority) := by
  unfold addToActiveView
  split
  next hx => exact .of_yields (.ok (.known hx)) fun hc => hx.elim hc.1.1 hc.1.2
  next hx =>
    have hx : n.Stranger x := not_or.mp hx
    refine ((removeRandomFromActiveViewIfFull_vacated h).andThen ?_).congr (and_iff_right hx).symm
    intro k hk
    refine (removeFromPassiveView_removed k x).bind ?_
    rintro _ ⟨p, rfl, hp⟩
    have hjoined : (({ k with passiveView := p, activeView := k.activeView ++ [x] } :
        Node T R).send x (.neighbor ⟨k.id, highPriority⟩)).pushBack (.notify (.neighborUp x)) =
          k.joined p x highPriority := by
      simp [Node.joined, Node.send, pushBack, arrival]
    exact .ok (hjoined ▸ .joined hx hk hp)

lemma Vacated.evolves (h : Vacated n m) (hn : n.WellFormed) : m.WellFormed ∧
    m.activeView.length < n.options.maxActiveViewSize.toNat ∧
      ∃ acts, Effect (fun _ => False) n m acts ∧ ∀ y, .disconnect y ∈ acts → y ∈ n.activeView := by
  cases h with
  | room hf =>
    exact ⟨hn, not_le.mp (mt active_full_iff.mpr hf), [], .refl n, fun y hy => by simp at hy⟩
  | @evicted x v m hf hv hm =>
    have hdeparted := departure_effect hn true hv
    have hquiet : Effect (fun _ => False) n { n.departed v x true with
        rng := (Rng.randomRange n.activeView.length n.rng).2 } (departure n.id x true) :=
      { hdeparted with
        downs := fun y hy => (hdeparted.downs y hy).imp_left fun hs => by simp at hs }
    have heffect := hquiet.trans_of_subset hm.keeps.effect
      fun y hy => hm.keeps.active_perm.mem_iff.mp hy
    rw [List.append_nil] at heffect
    refine ⟨hm.keeps.wellFormed ((restocks_rng _ _).wellFormed (hn.departed hv true)), ?_, _,
      heffect, fun y hy => ?_⟩
    · have hle := hn.active_le
      rw [hv.length_eq, List.length_cons] at hle
      rw [hm.same.1]
      exact hle
    · obtain rfl : y = x := by simpa [departure] using hy
      exact hv.mem_iff.mpr List.mem_cons_self

lemma Admitted.evolves {highPriority : Bool} (h : Admitted n x highPriority m)
    (hn : n.WellFormed) : Evolves (fun _ => False) n m := by
  cases h with
  | known => exact .refl hn
  | @joined k p hx hk hp =>
    obtain ⟨hkw, hlen, acts, heffect, hclosed⟩ := hk.evolves hn
    have hxk := hk.stranger hx
    have hunlisted := keeps_unlisted hp
    have heffect := heffect.trans_of_subset hunlisted.effect fun y hy => hy
    rw [List.append_nil] at heffect
    have harrival : Effect (fun _ => False) { k with passiveView := p }
        (k.joined p x highPriority) (arrival k.id x highPriority) :=
      arrival_effect (n := { k with passiveView := p }) hxk.1 hxk.2 highPriority
    rw [← hk.same.2] at hlen
    refine ⟨?_, _, heffect.trans harrival fun y hy hy' => ?_⟩
    · have hnot := hkw.sound.not_mem_unlisted hp
      exact (hunlisted.wellFormed hkw).push_active hxk.1 hnot hxk.2 hlen _
    · rcases List.mem_append.mp hy' with hy' | hy'
      · exact heffect.closed y hy hy'
      · exact hx.1 (List.mem_singleton.mp hy' ▸ hclosed y hy)

end QuicP2p.Hyparview.Node
