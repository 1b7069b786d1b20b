import QuicP2p.Hyparview.Operations

/-! What becomes of the passive view: who enters it, who is evicted for it, and when that was
needed. -/

namespace QuicP2p.Hyparview.Node

open Library

variable {T R : Type}

/-- The node is a member of one of the views. -/
def Seen (n : Node T R) (x : T) : Prop := x ∈ n.activeView ∨ x ∈ n.passiveView

/-- The two nodes have the same members in their views. -/
structure SameViews (n m : Node T R) : Prop where
  active : m.activeView.Perm n.activeView
  passive : m.passiveView.Perm n.passiveView
  options_eq : m.options = n.options

/-- A passive view that made room for one more, if it had none. -/
inductive Spared (n : Node T R) (q : List T) : Prop
  | room (hf : ¬ n.isPassiveViewFull = true) (hq : q.Perm n.passiveView)
  | evicted {z : T} (hf : n.isPassiveViewFull = true) (hq : n.passiveView.Perm (z :: q))

/-- Whoever was seen before the change and is not seen after it was pushed out of a passive view
that is still full, the exempt ones apart. -/
def Frugal (exempt : T → Prop) (n m : Node T R) : Prop :=
  ∀ y, n.Seen y → ¬ m.Seen y → ¬ exempt y → m.isPassiveViewFull = true

/-- Nobody is forgotten, or the passive view is full; and it stays full. -/
def Thrifty (n m : Node T R) : Prop :=
  ((∀ y, n.Seen y → m.Seen y) ∨ m.isPassiveViewFull = true) ∧
    (n.isPassiveViewFull = true → m.isPassiveViewFull = true)

variable {n m k : Node T R} {x y s : T} {p q v : List T}

lemma passive_length (h : n.WellFormed) (hf : n.isPassiveViewFull = true) :
    n.passiveView.length = n.options.maxPassiveViewSize.toNat :=
  le_antisymm h.passive_le (passive_full_iff.mp hf)

namespace Spared

lemma subset (h : Spared n q) (hx : x ∈ q) : x ∈ n.passiveView := by
  cases h with
  | room _ hq => exact hq.mem_iff.mp hx
  | evicted _ hq => exact hq.mem_iff.mpr (List.mem_cons_of_mem _ hx)

lemma perm (h : Spared n q) (hp : p.Perm q) : Spared n p := by
  cases h with
  | room hf hq => exact .room hf (hp.trans hq)
  | evicted hf hq => exact .evicted hf (hq.trans (.cons _ hp.symm))

lemma length_lt (h : Spared n q) (hn : n.WellFormed) :
    q.length < n.options.maxPassiveViewSize.toNat := by
  cases h with
  | room hf hq =>
    rw [passive_full_iff] at hf
    rw [hq.length_eq]
    omega
  | evicted hf hq =>
    have hl := hn.passive_le
    rw [hq.length_eq, List.length_cons] at hl
    omega

lemma full_after (hq : Spared n q) (hn : n.WellFormed) (hkp : k.passiveView = q ++ [x])
    (hko : k.options = n.options) : k.isPassiveViewFull = true ↔
      n.options.maxPassiveViewSize.toNat ≤ n.passiveView.length + 1 := by
  rw [passive_full_iff, hko, hkp, List.length_append, List.length_singleton]
  cases hq with
  | room hf hq => rw [hq.length_eq]
  | evicted hf hq =>
    have hl := passive_length hn hf
    have hlen := hq.length_eq
    rw [List.length_cons] at hlen
    omega

end Spared

lemma frugal_of_seen {exempt : T → Prop} (h : ∀ y, n.Seen y → m.Seen y) : Frugal exempt n m :=
  fun y hn hm _ => absurd (h y hn) hm

lemma Thrifty.frugal {exempt : T → Prop} (h : Thrifty n m) : Frugal exempt n m := by
  rcases h.1 with hseen | hfull
  · exact frugal_of_seen hseen
  · exact fun _ _ _ _ => hfull

lemma Thrifty.trans (h : Thrifty n m) (h' : Thrifty m k) : Thrifty n k := by
  refine ⟨?_, fun hf => h'.2 (h.2 hf)⟩
  rcases h'.1 with hmk | hmk
  · rcases h.1 with hnm | hnm
    · exact .inl fun y hy => hmk y (hnm y hy)
    · exact .inr (h'.2 hnm)
  · exact .inr hmk

namespace SameViews

lemma refl (n : Node T R) : SameViews n n := ⟨.refl _, .refl _, rfl⟩

lemma seen (h : SameViews n m) : m.Seen y ↔ n.Seen y :=
  or_congr h.active.mem_iff h.passive.mem_iff

lemma full (h : SameViews n m) : m.isPassiveViewFull = n.isPassiveViewFull := by
  simp only [isPassiveViewFull, h.options_eq, h.passive.length_eq]

lemma thrifty (h : SameViews n m) : Thrifty n m :=
  ⟨.inl fun _ hy => h.seen.mpr hy, fun hf => h.full ▸ hf⟩

lemma sendEach (n : Node T R) (ds : List T) (msg : ProtocolMessage T) :
    SameViews n (n.sendEach ds msg) := by
  rw [sendEach_eq]
  exact ⟨.refl _, .refl _, rfl⟩

end SameViews

lemma frugal_congr {exempt : T → Prop} {n' m' : Node T R} (hn : SameViews n n')
    (hm : SameViews m m') : Frugal exempt n' m' ↔ Frugal exempt n m := by
  simp only [Frugal, hn.seen, hm.seen, hm.full]

lemma Selected.sameViews {excludes : List T} {r : Option T} (h : Selected n excludes r m) :
    SameViews n m := by
  cases h with
  | found _ _ hv => exact ⟨hv, .refl _, rfl⟩
  | none _ hv => exact ⟨hv, .refl _, rfl⟩

lemma getElem?_concat_eq_some {l : List T} (hx : x ∉ l) {i : ℕ} :
    (l ++ [x])[i]? = some x ↔ i = l.length := by
  rcases Nat.lt_trichotomy i l.length with hi | hi | hi
  · rw [List.getElem?_append_left hi]
    refine iff_of_false (fun hs => hx (List.mem_of_getElem? hs)) hi.ne
  · simp [hi]
  · rw [List.getElem?_eq_none (by simp; omega)]
    simp [hi.ne']

lemma eq_singleton (h : n.Sound) (hne : n.activeView ≠ []) (hall : ∀ x ∈ n.activeView, x = s) :
    n.activeView = [s] := by
  have hnodup := h.active_nodup
  cases hv : n.activeView with
  | nil => exact absurd hv hne
  | cons a l =>
    rw [hv] at hall hnodup
    obtain rfl : a = s := hall a List.mem_cons_self
    cases l with
    | nil => rfl
    | cons b l =>
      have hb : b = a := hall b (by simp)
      simp [hb] at hnodup

lemma sameViews_disconnectUnless [DecidableEq T] (n : Node T R) (x : T) :
    SameViews n (n.disconnectUnlessActiveViewNode x) := by
  obtain ⟨ha, hp, ho, _⟩ := n.disconnectUnlessActiveViewNode_views x
  exact ⟨ha ▸ .refl _, hp ▸ .refl _, ho⟩

variable [Rng R]

/-- The admission evicts a neighbour into a full passive view, from where another than the admitted
node is evicted, although that one leaves the passive view as well. -/
def WastefulAdmission (n : Node T R) (x : T) : Prop :=
  x ∉ n.activeView ∧ x ∈ n.passiveView ∧ n.isActiveViewFull = true ∧ n.isPassiveViewFull = true ∧
    n.passiveView[(Rng.randomRange n.passiveView.length
      (Rng.randomRange n.activeView.length n.rng).2).1]? ≠ some x

/-- The same for a new node that a walk has just put at the end of the passive view. -/
def WastefulLanding (n : Node T R) (x : T) : Prop :=
  ¬ n.Knows x ∧
    if n.isActiveViewFull = true then
      n.options.maxPassiveViewSize.toNat ≤ n.passiveView.length + 1 ∧
        (Rng.randomRange n.options.maxPassiveViewSize.toNat
          (Rng.randomRange n.activeView.length (if n.isPassiveViewFull = true then
            (Rng.randomRange n.passiveView.length n.rng).2 else n.rng)).2).1 + 1 ≠
              n.options.maxPassiveViewSize.toNat
    else n.isPassiveViewFull = true

namespace Added

/-- An addition forgets somebody only where the passive view is full, and leaves it full. -/
lemma seen (h : Added n x m) : (∀ y, n.Seen y → m.Seen y) ∨ m.isPassiveViewFull = true := by
  cases h with
  | known => exact .inl fun y hy => hy
  | stored => exact .inl fun y hy => hy.imp_right (List.mem_append_left _)
  | @replaced z p _ hf hp =>
    refine .inr (passive_full_iff.mpr ?_)
    have hl := passive_full_iff.mp hf
    rw [hp.length_eq] at hl
    simpa using hl

lemma full (h : Added n x m) (hf : n.isPassiveViewFull = true) : m.isPassiveViewFull = true := by
  cases h with
  | known => exact hf
  | stored _ hf' => exact absurd hf hf'
  | @replaced z p _ _ hp =>
    have hl := passive_full_iff.mp hf
    rw [hp.length_eq] at hl
    exact passive_full_iff.mpr (by simpa using hl)

lemma thrifty (h : Added n x m) : Thrifty n m := ⟨h.seen, h.full⟩

lemma fresh (h : Added n x k) (hx : ¬ n.Knows x) : ∃ q, Spared n q ∧
    k = { n with
      passiveView := q ++ [x]
      rng := if n.isPassiveViewFull = true then (Rng.randomRange n.passiveView.length n.rng).2
        else n.rng } := by
  cases h with
  | known hknown => exact absurd hknown hx
  | stored _ hf => exact ⟨_, .room hf (.refl _), by rw [if_neg hf]⟩
  | replaced _ hf hp => exact ⟨_, .evicted hf hp, by rw [if_pos hf]⟩

lemma evicted {e : T} (hk : Added { n.departed v e true with
      rng := (Rng.randomRange n.activeView.length n.rng).2 } e k) (h : n.WellFormed)
    (hv : n.activeView.Perm (e :: v)) :
    (¬ n.isPassiveViewFull = true ∧ k.passiveView = n.passiveView ++ [e]) ∨
    ∃ z p, n.isPassiveViewFull = true ∧ n.passiveView.Perm (z :: p) ∧
      k.passiveView = p ++ [e] ∧ n.passiveView[(Rng.randomRange n.passiveView.length
        (Rng.randomRange n.activeView.length n.rng).2).1]? = some z := by
  cases hk with
  | known hknown => exact absurd hknown (not_knows_departed h.sound hv true)
  | stored _ hf => exact .inl ⟨hf, rfl⟩
  | @replaced z p _ hf hp hz => exact .inr ⟨z, p, hf, hp, rfl, hz⟩

/-- A landing in a full active view wastes a backup exactly if the admission does. -/
lemma landing_wasteful (hk : Added n x k) (hx : ¬ n.Knows x) (hn : n.WellFormed)
    (hkw : k.WellFormed) (hfa : n.isActiveViewFull = true) :
    WastefulLanding n x ↔ WastefulAdmission k x := by
  obtain ⟨q, hq, hkeq⟩ := hk.fresh hx
  have hxq : x ∉ q := fun hm => hx (.inr (.inl (hq.subset hm)))
  have hka : k.activeView = n.activeView := hk.same.1
  have hko : k.options = n.options := hk.same.2.2
  have hkp : k.passiveView = q ++ [x] := by rw [hkeq]
  have hkf : k.isActiveViewFull = true := by rwa [isActiveViewFull, hka, hko]
  have hfull := hq.full_after hn hkp hko
  have hdraw : (Rng.randomRange n.options.maxPassiveViewSize.toNat (Rng.randomRange
      n.activeView.length (if n.isPassiveViewFull = true then
        (Rng.randomRange n.passiveView.length n.rng).2 else n.rng)).2).1 =
      (Rng.randomRange n.options.maxPassiveViewSize.toNat
        (Rng.randomRange n.activeView.length k.rng).2).1 := by rw [hkeq]
  rw [WastefulLanding, WastefulAdmission, if_pos hfa, hka, hdraw]
  constructor
  · rintro ⟨_, hle, hdraw⟩
    have hkfull := hfull.mpr hle
    have hl := passive_length hkw hkfull
    refine ⟨fun hxa => hx (.inl hxa), hkp ▸ List.mem_append_right _ List.mem_cons_self, hkf,
      hkfull, ?_⟩
    rw [hl, hko, hkp, Ne, getElem?_concat_eq_some hxq]
    rw [hkp, List.length_append, List.length_singleton, hko] at hl
    omega
  · rintro ⟨_, _, _, hkfull, hdraw⟩
    have hl := passive_length hkw hkfull
    refine ⟨hx, hfull.mp hkfull, fun hi => hdraw ?_⟩
    rw [hl, hko, hkp, getElem?_concat_eq_some hxq]
    rw [hkp, List.length_append, List.length_singleton, hko] at hl
    omega

end Added

lemma AddedIf.thrifty {c : Prop} (h : AddedIf c n x m) : Thrifty n m := by
  cases h with
  | added _ hm => exact hm.thrifty
  | spared => exact (SameViews.refl n).thrifty

lemma Stocked.thrifty {xs : List T} (h : Stocked n xs m) : Thrifty n m := by
  induction h with
  | nil => exact (SameViews.refl _).thrifty
  | cons h _ ih => exact h.thrifty.trans ih

variable [DecidableEq T]

lemma erase_concat {l : List T} (h : x ∉ l) : (l ++ [x]).erase x = l := by
  rw [List.erase_append_right _ h, List.erase_cons_head, List.append_nil]

/-- A neighbour leaves: it passes through the passive view, from where it is removed before the
active view is filled. -/
lemma Handled.present {alive : Bool} (hm : Handled n (.disconnect ⟨s, alive⟩) m)
    (h : n.WellFormed) (hs : s ∈ n.activeView) : ∃ v q g k, n.activeView.Perm (s :: v) ∧
      Spared n q ∧ Filled { n.departed v s alive with passiveView := q, rng := g } k ∧
      m = if alive then { k with passiveView := q ++ [s] } else k := by
  cases hm with
  | strangerLeft hno => exact absurd hs hno
  | @neighborLeft _ v q k l _ hv hk hq hl hr =>
    dsimp only at hv hk hq hr
    have hno := not_knows_departed h.sound hv alive
    have hsp : s ∉ n.passiveView := h.disjoint s hs
    obtain ⟨q₀, hq₀, rfl⟩ := hk.fresh hno
    have hspared : Spared n q₀ := by
      cases hq₀ with
      | room hf hq => exact .room hf hq
      | evicted hf hq => exact .evicted hf hq
    dsimp only at hq
    rw [erase_concat fun hm => hsp (hspared.subset hm)] at hq
    refine ⟨v, q, _, l, hv, hspared.perm hq, hl, ?_⟩
    obtain ⟨hla, hlp, hlo, hli⟩ := hl.views
    cases hr with
    | spared halive => rw [if_neg halive]
    | added halive hm =>
      rw [if_pos halive]
      have hlno : ¬ l.Knows s := by
        rw [Knows, hla, hlp, hli]
        rintro (hmem | hmem | he)
        · exact hno (.inl hmem)
        · exact hsp ((hspared.perm hq).subset hmem)
        · exact hno (.inr (.inr he))
      have hroom : ¬ l.isPassiveViewFull = true := by
        rw [passive_full_iff, hlo, hlp, not_le]
        exact (hspared.perm hq).length_lt h
      cases hm with
      | known hknows => exact absurd hknows hlno
      | stored => rw [hlp]
      | replaced _ hf => exact absurd hf hroom

lemma handleDisconnect_present (h : n.WellFormed) (hs : s ∈ n.activeView) (alive : Bool) :
    Yields (n.handleDisconnect ⟨s, alive⟩) (fun m => ∃ v q g k, n.activeView.Perm (s :: v) ∧
      Spared n q ∧ Filled { n.departed v s alive with passiveView := q, rng := g } k ∧
      m = if alive then { k with passiveView := q ++ [s] } else k) :=
  (handleDisconnect_yields h ⟨s, alive⟩).mono fun _ hm => hm.present h hs

/-- A message from a node that is no neighbour only adds it to the passive view, if it is alive. -/
lemma Handled.absent {alive : Bool} (hm : Handled n (.disconnect ⟨s, alive⟩) m)
    (hs : s ∉ n.activeView) : AddedIf (alive = true) n s m := by
  cases hm with
  | strangerLeft _ hk => exact hk
  | neighborLeft hv => exact absurd (hv.mem_iff.mpr List.mem_cons_self) hs

variable {highPriority : Bool} {id : T} {rng : R} {options : NodeOptions}
  {tr : List (Taken (Node T R) (Input T))}

/-- After a `DISCONNECT` its sender is no neighbour, and it is in the passive view if and only if it
is alive, unless it is dead and was in the passive view only. -/
theorem disconnect_settles (ha : 1 ≤ options.maxActiveViewSize.toNat)
    (hp : 1 ≤ options.maxPassiveViewSize.toNat)
    (h : Run step (withOptions id rng options) tr n) (hs : s ≠ id) (alive : Bool) :
    ∃ m, n.handleProtocolMessage (.disconnect ⟨s, alive⟩) = .ok m ∧
      ((s ∉ m.activeView ∧ (s ∈ m.passiveView ↔ alive = true)) ↔
        alive = true ∨ s ∈ n.activeView ∨ s ∉ n.passiveView) := by
  obtain ⟨hw, hid, _⟩ := run_spec ha hp h
  by_cases hsa : s ∈ n.activeView
  · obtain ⟨m, hm, v, q, g, k, hv, hq, hk, heq⟩ := handleDisconnect_present hw hsa alive
    have hsv : s ∉ v := (List.nodup_cons.mp (hv.nodup_iff.mp hw.active_nodup)).1
    have hsq : s ∉ q := fun hx => hw.disjoint s hsa (hq.subset hx)
    obtain ⟨hka, hkp, _, _⟩ := hk.views
    change k.activeView = v at hka
    change k.passiveView = q at hkp
    refine ⟨m, hm, iff_of_true ?_ (.inr (.inl hsa))⟩
    rw [heq]
    cases alive with
    | false =>
      refine ⟨hka ▸ hsv, ?_⟩
      simpa [hkp] using hsq
    | true =>
      refine ⟨hka ▸ hsv, ?_⟩
      simp
  · obtain ⟨m, hm, hhandled⟩ := handleDisconnect_yields hw ⟨s, alive⟩
    refine ⟨m, hm, ?_⟩
    cases hhandled.absent hsa with
    | spared halive => simp [hsa, halive]
    | added halive hadd =>
      have hstranger : n.Stranger s := ⟨hsa, fun he => hs (he.trans hid)⟩
      refine iff_of_true ⟨hadd.same.1 ▸ hsa, ?_⟩ (.inl halive)
      exact iff_of_true (hadd.mem hstranger) halive

/-- A node that knows of node 1 as a backup, or as a neighbour. -/
def acquainted (neighbour : Bool) : List (Input ℕ) :=
  [.call (.handleProtocolMessage (if neighbour then .join ⟨1⟩ else .disconnect ⟨1, true⟩))]

theorem disconnect_settles_neighbour : ∃ (tr : List (Taken (Node ℕ Playback) (Input ℕ)))
    (n m : Node ℕ Playback), Run step (withOptions 0 ⟨[]⟩ {}) tr n ∧ n.activeView = [1] ∧
      n.handleProtocolMessage (.disconnect ⟨1, false⟩) = .ok m ∧
      1 ∉ m.activeView ∧ (1 ∈ m.passiveView ↔ false = true) := by
  have hrun : follow step (withOptions 0 (⟨[]⟩ : Playback) {}) (acquainted true) = .ok _ := rfl
  obtain ⟨m, hm, hiff⟩ := disconnect_settles (by decide) (by decide)
    (Run.of_follow (acquainted true) hrun) (show (1 : ℕ) ≠ 0 by decide) false
  exact ⟨_, _, m, Run.of_follow (acquainted true) hrun, rfl, hm, hiff.mpr (.inr (.inl (by decide)))⟩

/-- A dead backup stays a backup. -/
theorem dead_backup_stays : ∃ (tr : List (Taken (Node ℕ Playback) (Input ℕ)))
    (n m : Node ℕ Playback), Run step (withOptions 0 ⟨[]⟩ {}) tr n ∧
      n.handleProtocolMessage (.disconnect ⟨1, false⟩) = .ok m ∧
      ¬ (1 ∉ m.activeView ∧ (1 ∈ m.passiveView ↔ false = true)) := by
  have hrun : follow step (withOptions 0 (⟨[]⟩ : Playback) {}) (acquainted false) = .ok _ := rfl
  exact ⟨_, _, _, Run.of_follow (acquainted false) hrun, rfl, by decide⟩

/-- An admission that is not wasteful forgets nobody, or leaves the passive view full. -/
lemma Admitted.frugal (h : Admitted n x highPriority m) (hn : n.WellFormed)
    (hw : ¬ WastefulAdmission n x) :
    (x ∈ n.activeView ∨ x = n.id ∨ ¬ n.isActiveViewFull = true ∨ ¬ n.isPassiveViewFull = true) ∧
      (∀ y, n.Seen y → m.Seen y) ∨ m.isPassiveViewFull = true := by
  cases h with
  | known hx => exact .inl ⟨hx.imp_right .inl, fun y hy => hy⟩
  | @joined k p hx hk hp =>
    cases hk with
    | room hf =>
      refine .inl ⟨.inr (.inr (.inl hf)), fun y hy => ?_⟩
      change y ∈ n.activeView ++ [x] ∨ y ∈ p
      rw [hp.mem_iff, hn.passive_nodup.mem_erase_iff]
      rcases hy with hy | hy
      · exact .inl (List.mem_append_left _ hy)
      · by_cases hyx : y = x
        · exact .inl (List.mem_append_right _ (List.mem_singleton.mpr hyx))
        · exact .inr ⟨hyx, hy⟩
    | @evicted e v _ hf hv hk =>
      have he : e ∈ n.activeView := hv.mem_iff.mpr List.mem_cons_self
      have hex : e ≠ x := fun hex => hx.1 (hex ▸ he)
      have hep : e ∉ n.passiveView := hn.disjoint e he
      have ha : k.activeView = v := hk.same.1
      have ho : k.options = n.options := hk.same.2.2
      rcases hk.evicted hn hv with ⟨hroom, hkp⟩ | ⟨z, r, hfull, hzr, hkp, hz⟩
      · have hnodup : (n.passiveView ++ [e]).Nodup :=
          List.nodup_append_comm.mp (List.nodup_cons.mpr ⟨hep, hn.passive_nodup⟩)
        refine .inl ⟨.inr (.inr (.inr hroom)), fun y hy => ?_⟩
        change y ∈ k.activeView ++ [x] ∨ y ∈ p
        rw [ha, hp.mem_iff, hkp, hnodup.mem_erase_iff, List.mem_append, List.mem_append,
          List.mem_singleton, List.mem_singleton]
        by_cases hyx : y = x
        · exact .inl (.inr hyx)
        · rcases hy with hy | hy
          · rcases List.mem_cons.mp (hv.mem_iff.mp hy) with hye | hyv
            · exact .inr ⟨hyx, .inr hye⟩
            · exact .inl (.inl hyv)
          · exact .inr ⟨hyx, .inl hy⟩
      · have hxz : x ∈ n.passiveView → x = z := by
          intro hxp
          by_contra hne
          exact hw ⟨hx.1, hxp, hf, hfull, fun heq => hne (Option.some.inj (heq.symm.trans hz))⟩
        have hxr : x ∉ r := by
          intro hxr
          have hxz := hxz (hzr.mem_iff.mpr (List.mem_cons_of_mem _ hxr))
          exact (List.nodup_cons.mp (hzr.nodup_iff.mp hn.passive_nodup)).1 (hxz ▸ hxr)
        have hxk : x ∉ k.passiveView := by
          rw [hkp, List.mem_append, List.mem_singleton, not_or]
          exact ⟨hxr, hex.symm⟩
        refine .inr (passive_full_iff.mpr ?_)
        change k.options.maxPassiveViewSize.toNat ≤ p.length
        have hl := passive_full_iff.mp hfull
        rw [hzr.length_eq] at hl
        rw [List.erase_of_not_mem hxk] at hp
        rw [ho, hp.length_eq, hkp]
        simpa using hl

/-- A wasteful admission forgets a backup, and leaves the passive view with room for it. -/
lemma Admitted.wasteful (h : Admitted n x highPriority m) (hn : n.WellFormed)
    (hw : WastefulAdmission n x) :
    ∃ y ∈ n.passiveView, y ≠ x ∧ ¬ m.Seen y ∧ ¬ m.isPassiveViewFull = true := by
  obtain ⟨hxa, hxp, hfa, hfp, hdraw⟩ := hw
  cases h with
  | known hknown =>
    rcases hknown with hknown | hknown
    · exact absurd hknown hxa
    · exact absurd (hknown ▸ hxp) hn.id_passive
  | @joined k p hx hk hp =>
    cases hk with
    | room hf => exact absurd hfa hf
    | @evicted e v _ hf hv hk =>
      have he : e ∈ n.activeView := hv.mem_iff.mpr List.mem_cons_self
      have ha : k.activeView = v := hk.same.1
      have ho : k.options = n.options := hk.same.2.2
      rcases hk.evicted hn hv with ⟨hroom, _⟩ | ⟨z, r, hfull, hzr, hkp, hz⟩
      · exact absurd hfp hroom
      · have hzx : z ≠ x := fun hzx => hdraw (hzx ▸ hz)
        have hzn : z ∈ n.passiveView := hzr.mem_iff.mpr List.mem_cons_self
        have hza : z ∉ n.activeView := fun hza => hn.disjoint z hza hzn
        have hzr' : z ∉ r := (List.nodup_cons.mp (hzr.nodup_iff.mp hn.passive_nodup)).1
        have hxk : x ∈ k.passiveView := by
          rw [hkp]
          rcases List.mem_cons.mp (hzr.mem_iff.mp hxp) with hxz | hxr
          · exact absurd hxz.symm hzx
          · exact List.mem_append_left _ hxr
        refine ⟨z, hzn, hzx, ?_, fun hm => ?_⟩
        · change ¬ (z ∈ k.activeView ++ [x] ∨ z ∈ p)
          rw [ha, hp.mem_iff, List.mem_append, List.mem_singleton]
          rintro ((hz | hz) | hz)
          · exact hza (hv.mem_iff.mpr (List.mem_cons_of_mem _ hz))
          · exact hzx hz
          · have hz := List.mem_of_mem_erase hz
            rw [hkp, List.mem_append, List.mem_singleton] at hz
            rcases hz with hz | hz
            · exact hzr' hz
            · exact hza (hz ▸ he)
        · have hm : k.options.maxPassiveViewSize.toNat ≤ p.length := passive_full_iff.mp hm
          have hlen := passive_length hn hfull
          rw [hzr.length_eq, List.length_cons] at hlen
          rw [ho, hp.length_eq, List.length_erase_of_mem hxk, hkp, List.length_append,
            List.length_singleton] at hm
          omega

lemma Admitted.frugal_iff (h : Admitted n x highPriority m) (hn : n.WellFormed) :
    Frugal (fun _ => False) n m ↔ ¬ WastefulAdmission n x := by
  constructor
  · intro hfrugal hw
    obtain ⟨y, hy, _, hm, hf⟩ := h.wasteful hn hw
    exact hf (hfrugal y (.inr hy) hm fun hno => hno)
  · intro hw
    rcases h.frugal hn hw with ⟨_, hseen⟩ | hfull
    · exact frugal_of_seen hseen
    · exact fun _ _ _ _ => hfull

lemma Admitted.landing_full (h : Admitted k x highPriority m) (hk : Added n x k) (hx : ¬ n.Knows x)
    (hkw : k.WellFormed) (hfa : n.isActiveViewFull = true) :
    Frugal (fun _ => False) n m ↔ ¬ WastefulAdmission k x := by
  obtain ⟨q, hq, hkeq⟩ := hk.fresh hx
  have hka : k.activeView = n.activeView := hk.same.1
  constructor
  · intro hfrugal hw
    obtain ⟨y, hy, hyx, hm, hf⟩ := h.wasteful hkw hw
    rw [hkeq, List.mem_append, List.mem_singleton] at hy
    rcases hy with hy | hy
    · exact hf (hfrugal y (.inr (hq.subset hy)) hm fun hno => hno)
    · exact hyx hy
  · intro hw
    rcases h.frugal hkw hw with ⟨hwhy, hseen⟩ | hmf
    · have hroom : ¬ k.isPassiveViewFull = true := by
        rcases hwhy with hwhy | hwhy | hwhy | hwhy
        · exact absurd (.inl (hka ▸ hwhy)) hx
        · exact absurd (.inr (.inr (hwhy.trans hk.same.2.1))) hx
        · rw [isActiveViewFull, hka, hk.same.2.2] at hwhy
          exact absurd hfa hwhy
        · exact hwhy
      rcases hk.seen with hsn | hkfull
      · exact frugal_of_seen fun y hy => hseen y (hsn y hy)
      · exact absurd hkfull hroom
    · exact fun _ _ _ _ => hmf

/-- With room in the active view the new node leaves the passive view again, where a backup may
have made room for it. -/
lemma Admitted.landing_room (h : Admitted k x highPriority m) (hk : Added n x k)
    (hx : ¬ n.Knows x) (hn : n.WellFormed) (hfa : ¬ n.isActiveViewFull = true) :
    Frugal (fun _ => False) n m ↔ ¬ WastefulLanding n x := by
  obtain ⟨q, hq, hkeq⟩ := hk.fresh hx
  have hxp : x ∉ n.passiveView := fun hxp => hx (.inr (.inl hxp))
  have hka : k.activeView = n.activeView := hk.same.1
  have hko : k.options = n.options := hk.same.2.2
  cases h with
  | known hknown =>
    rcases hknown with hknown | hknown
    · exact absurd (.inl (hka ▸ hknown)) hx
    · exact absurd (.inr (.inr (hknown.trans hk.same.2.1))) hx
  | @joined _ p _ hvacated hp =>
    cases hvacated with
    | evicted hf =>
      rw [isActiveViewFull, hka, hko] at hf
      exact absurd hf hfa
    | room =>
      have hseen : ∀ y, (k.joined p x highPriority).Seen y ↔
          (y ∈ n.activeView ∨ y = x) ∨ y ∈ p := fun y => by
        change y ∈ k.activeView ++ [x] ∨ y ∈ p ↔ _
        rw [hka, List.mem_append, List.mem_singleton]
      rw [hkeq, erase_concat fun hm => hxp (hq.subset hm)] at hp
      rw [WastefulLanding, if_neg hfa]
      cases hq with
      | room hf hq =>
        refine iff_of_true (frugal_of_seen fun y hy => ?_) fun hw => hf hw.2
        rw [hseen, hp.mem_iff, hq.mem_iff]
        exact hy.imp_left .inl
      | @evicted z hf hq =>
        refine iff_of_false (fun hfrugal => ?_) fun hw => hw ⟨hx, hf⟩
        have hzn : z ∈ n.passiveView := hq.mem_iff.mpr List.mem_cons_self
        have hzq : z ∉ q := (List.nodup_cons.mp (hq.nodup_iff.mp hn.passive_nodup)).1
        have hzm : ¬ (k.joined p x highPriority).Seen z := by
          rw [hseen, hp.mem_iff]
          rintro ((hza | hzx) | hzq')
          · exact hn.disjoint z hza hzn
          · exact hxp (hzx ▸ hzn)
          · exact hzq hzq'
        have hm : k.options.maxPassiveViewSize.toNat ≤ p.length :=
          passive_full_iff.mp (hfrugal z (.inr hzn) hzm fun hno => hno)
        have hl := passive_length hn hf
        have hlen := hq.length_eq
        rw [List.length_cons] at hlen
        rw [hko, hp.length_eq] at hm
        omega

/-- A walk's last step puts the new node into the passive view and then admits it. -/
lemma Admitted.landing_iff (h : Admitted k x highPriority m) (hk : Added n x k)
    (hx : ¬ n.Knows x) (hn : n.WellFormed) :
    Frugal (fun _ => False) n m ↔ ¬ WastefulLanding n x := by
  have hkw := hk.keeps.wellFormed hn
  by_cases hfa : n.isActiveViewFull = true
  · rw [h.landing_full hk hx hkw hfa, hk.landing_wasteful hx hn hkw hfa]
  · exact h.landing_room hk hx hn hfa

/-- A walk that ends here, at a wasteful admission. -/
def WastefulWalk (n : Node T R) (m : ForwardJoinMessage T) : Prop :=
  if m.ttl.isExpired = true ∨ n.activeView.isEmpty = true then n.WastefulAdmission m.newNode
  else (∀ x ∈ n.activeView, x = m.sender) ∧ (n.WastefulAdmission m.newNode ∨
    m.ttl.asU8 = n.options.passiveRandomWalkLen ∧ n.WastefulLanding m.newNode)

/-- Where somebody is forgotten although there is room in the passive view afterwards: a dead
neighbour passes through a full passive view, or the admission of a backup evicts another one. -/
def Wasteful (n : Node T R) : Operation T → Prop
  | .disconnect node alive =>
    alive = false ∧ node ∈ n.activeView ∧ n.isPassiveViewFull = true
  | .handleProtocolMessage (.disconnect m) =>
    m.alive = false ∧ m.sender ∈ n.activeView ∧ n.isPassiveViewFull = true
  | .handleProtocolMessage (.join m) => n.WastefulAdmission m.sender
  | .handleProtocolMessage (.neighbor m) =>
    m.highPriority = true ∧ n.WastefulAdmission m.sender
  | .handleProtocolMessage (.forwardJoin m) => n.WastefulWalk m
  | _ => False

lemma Handled.join_frugal {msg : JoinMessage T} (hm : Handled n (.join msg) m)
    (h : n.WellFormed) : Frugal (fun _ => False) n m ↔ ¬ WastefulAdmission n msg.sender := by
  cases hm with
  | joined hk =>
    rw [frugal_congr (.refl n) (.sendEach _ _ _)]
    exact hk.frugal_iff h

lemma Handled.neighbor_frugal {msg : NeighborMessage T} (hm : Handled n (.neighbor msg) m)
    (h : n.WellFormed) : Frugal (fun _ => False) n m ↔
      ¬ (msg.highPriority = true ∧ WastefulAdmission n msg.sender) := by
  cases hm with
  | neighborAdmitted hadmit hk =>
    rw [hk.frugal_iff h]
    refine not_congr ⟨fun hw => ⟨?_, hw⟩, fun hw => hw.2⟩
    exact hadmit.resolve_right fun hf => hf hw.2.2.1
  | neighborRefused hadmit =>
    exact iff_of_true (SameViews.refl n).thrifty.frugal fun hw => hadmit (.inl hw.1)

lemma Handled.forwardJoin_frugal {msg : ForwardJoinMessage T} (hm : Handled n (.forwardJoin msg) m)
    (h : n.WellFormed) : Frugal (fun _ => False) n m ↔ ¬ n.WastefulWalk msg := by
  cases hm with
  | walkEnded hstop hk =>
    rw [WastefulWalk, if_pos hstop]
    exact hk.frugal_iff h
  | @walkForwarded _ k l d hgo hk hl =>
    rw [WastefulWalk, if_neg hgo]
    have hsent : SameViews l (l.send d (.forwardJoin ⟨l.id, msg.newNode, msg.ttl.decrement⟩)) :=
      ⟨.refl _, .refl _, rfl⟩
    have hthrifty := (hk.thrifty.trans hl.sameViews.thrifty).trans hsent.thrifty
    cases hl with
    | found hd hno =>
      refine iff_of_true hthrifty.frugal fun hw => hno ?_
      exact List.mem_singleton.mpr (hw.1 d (hk.active_eq ▸ hd))
  | @walkStuck _ k l _ hgo hk hl hr =>
    rw [WastefulWalk, if_neg hgo]
    rw [not_or, List.isEmpty_iff] at hgo
    cases hl with
    | @none view hx hv =>
      have hall : ∀ x ∈ n.activeView, x = msg.sender := fun x hx' =>
        List.mem_singleton.mp (hx x (hk.active_eq ▸ hx'))
      have hone := eq_singleton h.sound hgo.2 hall
      obtain rfl : view = k.activeView := by
        rw [hk.active_eq, hone] at hv ⊢
        exact List.perm_singleton.mp hv
      have hr : Admitted k msg.newNode true m := hr
      rw [and_iff_right hall]
      cases hk with
      | spared httl => rw [hr.frugal_iff h, or_iff_left fun hw => httl hw.1]
      | added httl hadd =>
        rw [and_iff_right httl]
        by_cases hknown : n.Knows msg.newNode
        · cases hadd with
          | known => rw [hr.frugal_iff h, or_iff_left fun hw => hw.1 hknown]
          | stored hno => exact absurd hknown hno
          | replaced hno => exact absurd hknown hno
        · rw [hr.landing_iff hadd hknown h, or_iff_right fun hw => hknown (.inr (.inl hw.2.1))]

lemma Handled.disconnect_frugal {alive : Bool} (hm : Handled n (.disconnect ⟨s, alive⟩) m)
    (h : n.WellFormed) : Frugal (fun y => alive = false ∧ y = s) n m ↔
      ¬ (alive = false ∧ s ∈ n.activeView ∧ n.isPassiveViewFull = true) := by
  by_cases hs : s ∈ n.activeView
  · obtain ⟨v, q, g, k, hv, hq, hk, rfl⟩ := hm.present h hs
    obtain ⟨hka, hkp, hko, _⟩ := hk.views
    change k.activeView = v at hka
    change k.passiveView = q at hkp
    change k.options = n.options at hko
    have hseen : ∀ y, y ∈ n.activeView → y = s ∨ y ∈ v := fun y hy =>
      List.mem_cons.mp (hv.mem_iff.mp hy)
    cases alive with
    | true =>
      refine iff_of_true ?_ (by simp)
      intro y hy hm _
      have hm : y ∉ v ∧ y ∉ q ++ [s] := by
        rw [← hka]
        exact not_or.mp hm
      rw [List.mem_append, List.mem_singleton, not_or] at hm
      have hyp : y ∈ n.passiveView := by
        rcases hy with hy | hy
        · exact absurd (hseen y hy) (by tauto)
        · exact hy
      cases hq with
      | room _ hq => exact absurd (hq.mem_iff.mpr hyp) hm.2.1
      | evicted hf hq =>
        have hl := passive_full_iff.mp hf
        rw [hq.length_eq] at hl
        refine passive_full_iff.mpr ?_
        change k.options.maxPassiveViewSize.toNat ≤ (q ++ [s]).length
        rw [hko]
        simpa using hl
    | false =>
      change Frugal _ n k ↔ _
      cases hq with
      | room hf hq =>
        refine iff_of_true ?_ fun hw => hf hw.2.2
        intro y hy hm hne
        rw [Seen, hka, hkp, not_or] at hm
        rcases hy with hy | hy
        · rcases hseen y hy with hys | hyv
          · exact absurd ⟨rfl, hys⟩ hne
          · exact absurd hyv hm.1
        · exact absurd (hq.mem_iff.mpr hy) hm.2
      | @evicted z hf hq =>
        refine iff_of_false (fun hfrugal => ?_) fun hw => hw ⟨rfl, hs, hf⟩
        have hzn : z ∈ n.passiveView := hq.mem_iff.mpr List.mem_cons_self
        have hzq : z ∉ q := (List.nodup_cons.mp (hq.nodup_iff.mp h.passive_nodup)).1
        have hza : z ∉ n.activeView := fun hza => h.disjoint z hza hzn
        have hzm : ¬ k.Seen z := by
          rw [Seen, hka, hkp, not_or]
          exact ⟨fun hzv => hza (hv.mem_iff.mpr (List.mem_cons_of_mem _ hzv)), hzq⟩
        have hm := passive_full_iff.mp (hfrugal z (.inr hzn) hzm fun he => hza (he.2 ▸ hs))
        have hlen := passive_length h hf
        rw [hq.length_eq, List.length_cons] at hlen
        rw [hko, hkp] at hm
        omega
  · exact iff_of_true (hm.absent hs).thrifty.frugal fun hw => hs hw.2.1

lemma Handled.frugal_iff {msg : ProtocolMessage T} (hm : Handled n msg m) (h : n.WellFormed) :
    Frugal (Operation.silent (.handleProtocolMessage msg)) n m ↔
      ¬ Wasteful n (.handleProtocolMessage msg) := by
  cases msg with
  | join msg => exact hm.join_frugal h
  | forwardJoin msg => exact hm.forwardJoin_frugal h
  | neighbor msg => exact hm.neighbor_frugal h
  | disconnect msg => exact hm.disconnect_frugal h
  | shuffle msg =>
    have hthrifty : Thrifty n m := by
      cases hm with
      | shuffleEnded _ hk =>
        have hs : SameViews n (n.shufflePassive.send msg.origin (.shuffleReply ⟨n.id,
            n.shufflePassive.passiveView.take msg.nodes.length⟩)) :=
          ⟨.refl _, Rng.shuffle_perm _ _, rfl⟩
        exact hs.thrifty.trans hk.thrifty
      | shuffleStuck _ hk => exact hk.sameViews.thrifty
      | shuffleForwarded _ hk =>
        exact hk.sameViews.thrifty.trans (SameViews.mk (.refl _) (.refl _) rfl).thrifty
    exact iff_of_true hthrifty.frugal fun hno => hno
  | shuffleReply msg =>
    cases hm with
    | shuffleReplied hk => exact iff_of_true hk.thrifty.frugal fun hno => hno

lemma Performed.frugal_iff {op : Operation T} (hm : Performed n op m) (h : n.WellFormed) :
    Frugal op.silent n m ↔ ¬ Wasteful n op := by
  cases hm with
  | join =>
    exact iff_of_true (SameViews.mk (.refl _) (.refl _) rfl).thrifty.frugal fun hno => hno
  | disconnected hm => exact hm.disconnect_frugal h
  | left hm => exact hm.frugal_iff h
  | @answered msg k _ hk =>
    exact (frugal_congr (.refl n) (sameViews_disconnectUnless k msg.sender)).trans
      (hk.frugal_iff h)
  | unshuffled => exact iff_of_true (SameViews.refl n).thrifty.frugal fun hno => hno
  | @shuffled x g k _ hk =>
    have hs : SameViews n k := by
      rw [hk]
      exact ⟨Rng.shuffle_perm _ _, Rng.shuffle_perm _ _, rfl⟩
    exact iff_of_true (hs.thrifty.trans (SameViews.mk (.refl _) (.refl _) rfl).thrifty).frugal
      fun hno => hno
  | filled hm =>
    obtain ⟨ha, hp, ho, _⟩ := hm.views
    exact iff_of_true (SameViews.mk (ha ▸ .refl _) (hp ▸ .refl _) ho).thrifty.frugal
      fun hno => hno
  | synced => exact iff_of_true (SameViews.sendEach n _ _).thrifty.frugal fun hno => hno

/-- A peer is forgotten only where the passive view is full, unless the operation is wasteful. -/
theorem forgotten_only_when_full (ha : 1 ≤ options.maxActiveViewSize.toNat)
    (hp : 1 ≤ options.maxPassiveViewSize.toNat)
    (h : Run step (withOptions id rng options) tr n) (op : Operation T) :
    ∃ m, n.perform op = .ok m ∧
      ((∀ y, y ∈ n.activeView ∨ y ∈ n.passiveView → ¬ (y ∈ m.activeView ∨ y ∈ m.passiveView) →
        ¬ op.silent y → m.isPassiveViewFull = true) ↔ ¬ Wasteful n op) := by
  obtain ⟨hw, _, _⟩ := run_spec ha hp h
  exact (perform_yields hw op).mono fun _ hm => hm.frugal_iff hw

/-- A node whose views hold one peer each. -/
def small : NodeOptions := { maxActiveViewSize := 1, maxPassiveViewSize := 1 }

def paired : List (Input ℕ) :=
  [.call (.handleProtocolMessage (.join ⟨1⟩)), .call (.disconnect 2 true)]

theorem forgotten_only_when_full_paired : ∃ (tr : List (Taken (Node ℕ Playback) (Input ℕ)))
    (n m : Node ℕ Playback), Run step (withOptions 0 ⟨[]⟩ small) tr n ∧
      n.perform (.disconnect 1 true) = .ok m ∧ 2 ∈ n.passiveView ∧
      ∀ y, y ∈ n.activeView ∨ y ∈ n.passiveView → ¬ (y ∈ m.activeView ∨ y ∈ m.passiveView) →
        ¬ (Operation.disconnect 1 true).silent y → m.isPassiveViewFull = true := by
  have hrun : follow step (withOptions 0 (⟨[]⟩ : Playback) small) paired = .ok _ := rfl
  obtain ⟨m, hm, hiff⟩ := forgotten_only_when_full (by decide) (by decide)
    (Run.of_follow paired hrun) (.disconnect 1 true)
  refine ⟨_, _, m, Run.of_follow paired hrun, hm, by decide, hiff.mpr ?_⟩
  simp [Wasteful]

/-- A dead neighbour pushes the only backup out, and leaves the passive view empty. -/
theorem backup_forgotten : ∃ (tr : List (Taken (Node ℕ Playback) (Input ℕ)))
    (n m : Node ℕ Playback), Run step (withOptions 0 ⟨[]⟩ small) tr n ∧
      n.perform (.disconnect 1 false) = .ok m ∧
      ¬ ∀ y, y ∈ n.activeView ∨ y ∈ n.passiveView → ¬ (y ∈ m.activeView ∨ y ∈ m.passiveView) →
        ¬ (Operation.disconnect 1 false).silent y → m.isPassiveViewFull = true := by
  have hrun : follow step (withOptions 0 (⟨[]⟩ : Playback) small) paired = .ok _ := rfl
  refine ⟨_, _, _, Run.of_follow paired hrun, rfl, fun hall => ?_⟩
  have hfull := hall 2 (by decide) (by decide) (by simp [Operation.silent])
  revert hfull
  decide

end QuicP2p.Hyparview.Node
