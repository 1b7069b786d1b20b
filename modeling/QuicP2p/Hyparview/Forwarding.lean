import QuicP2p.Hyparview.Views

/-! The choice of the node to which a random walk goes next. -/

namespace QuicP2p.Hyparview.Node

open Library

variable {T R : Type}

/-- What the choice of a destination for a forwarded message comes to. -/
inductive Selected (n : Node T R) (excludes : List T) : Option T → Node T R → Prop
  | found {x : T} {view : List T} {g : R} (hx : x ∈ n.activeView) (hn : x ∉ excludes)
      (hv : view.Perm n.activeView) :
      Selected n excludes (some x) { n with activeView := view, rng := g }
  | none {view : List T} (hx : ∀ x ∈ n.activeView, x ∈ excludes) (hv : view.Perm n.activeView) :
      Selected n excludes none { n with activeView := view }

lemma Selected.restocks {excludes : List T} {r : Option T} {m : Node T R}
    (h : Selected n excludes r m) : Restocks n m := by
  cases h with
  | found _ _ hv => exact .of_perm rfl rfl rfl hv (.refl _)
  | none _ hv => exact .of_perm rfl rfl rfl hv (.refl _)

variable [DecidableEq T]

/-- The nodes of the view before `k` are no excluded ones, and those from `tail` on are. -/
def Parted (excludes view : List T) (k tail : ℕ) : Prop :=
  ∀ j x, view[j]? = some x → (j < k → x ∉ excludes) ∧ (tail ≤ j → x ∈ excludes)

lemma Parted.swap {excludes view view' : List T} {i k : ℕ} (h : Parted excludes view i (k + 1))
    (hi : i ≤ k) (hx : ∀ x, view[i]? = some x → x ∈ excludes) (hs : swap view i k = some view') :
    Parted excludes view' i k := by
  obtain ⟨x, hxi, y, hyk, hview⟩ : ∃ x, view[i]? = some x ∧ ∃ y, view[k]? = some y ∧
      (view.set i y).set k x = view' := by
    simpa [Library.swap, Option.bind_eq_some_iff] using hs
  intro j z hz
  rw [← hview, List.getElem?_set, List.getElem?_set] at hz
  split_ifs at hz with hkj hlen hij
  · cases hz
    exact ⟨fun hj => by omega, fun _ => hx _ hxi⟩
  · exact ⟨fun hj => by omega, fun hj => by omega⟩
  · obtain ⟨hlt, hge⟩ := h j z hz
    exact ⟨hlt, fun hj => hge (by omega)⟩

lemma partitionLoop_spec (excludes : List T) {passes i tail : ℕ} {view : List T}
    (hp : i + passes = tail) (ht : tail ≤ view.length) (h : Parted excludes view i tail) :
    Yields (partitionLoop excludes passes view i tail) (fun r => r.1.Perm view ∧ r.2 ≤ tail ∧
      Parted excludes r.1 r.2 r.2) := by
  induction passes generalizing i tail view with
  | zero =>
    obtain rfl : i = tail := hp
    exact .ok ⟨.refl _, le_rfl, h⟩
  | succ passes ih =>
    have hi : i < view.length := by omega
    rw [partitionLoop, if_pos (by omega), List.getElem?_eq_getElem hi]
    refine Yields.bind (P := fun x => x = view[i]) (.ok rfl) ?_
    rintro _ rfl
    split
    next hx =>
      obtain ⟨tail, rfl⟩ : ∃ k, tail = k + 1 := ⟨tail - 1, by omega⟩
      have hs := swap_of_lt hi (show tail < view.length by omega)
      have hperm := swap_perm hs
      have hparted := h.swap (by omega)
        (fun x hx' => (Option.some.inj ((List.getElem?_eq_getElem hi).symm.trans hx')) ▸ hx) hs
      rw [Nat.add_sub_cancel, hs]
      refine (ih (by omega) (by rw [hperm.length_eq]; omega) hparted).mono ?_
      rintro r ⟨hr, hle, hr'⟩
      exact ⟨hr.trans hperm, by omega, hr'⟩
    next hx =>
      refine ih (by omega) ht fun j x hj => ⟨fun hji => ?_, (h j x hj).2⟩
      rcases Nat.lt_succ_iff_lt_or_eq.mp hji with hji | rfl
      · exact (h j x hj).1 hji
      · exact (Option.some.inj ((List.getElem?_eq_getElem hi).symm.trans hj)) ▸ hx

lemma partitionLoop_extra (excludes : List T) {passes i tail : ℕ} (view : List T) (extra : ℕ)
    (hp : i + passes = tail) : partitionLoop excludes (passes + extra) view i tail =
      partitionLoop excludes passes view i tail := by
  induction passes generalizing i tail view with
  | zero =>
    obtain rfl : i = tail := hp
    cases extra with
    | zero => rfl
    | succ extra => rw [Nat.zero_add, partitionLoop, partitionLoop, if_neg (by omega)]
  | succ passes ih =>
    rw [Nat.succ_add, partitionLoop, partitionLoop, if_pos (by omega), if_pos (by omega)]
    congr 1
    funext x
    split
    · congr 1
      funext view'
      exact ih view' (by omega)
    · exact ih view (by omega)

/-- The destination is the one at a random place before the split point. -/
lemma selectForwardingDestination_eq [Rng R] (n : Node T R) (excludes : List T) : ∃ view tail,
    partitionLoop excludes n.activeView.length n.activeView 0 n.activeView.length =
      .ok (view, tail) ∧
    view.Perm n.activeView ∧ tail ≤ view.length ∧ Parted excludes view tail tail ∧
    n.selectForwardingDestination excludes =
      if tail = 0 then .ok (none, { n with activeView := view })
      else .ok (view[(Rng.randomRange tail n.rng).1]?, { n with
        activeView := view
        rng := (Rng.randomRange tail n.rng).2 }) := by
  have hstart : Parted excludes n.activeView 0 n.activeView.length := by
    intro j x hj
    obtain ⟨hlt, _⟩ := List.getElem?_eq_some_iff.mp hj
    exact ⟨fun hj => by omega, fun hj => by omega⟩
  obtain ⟨⟨view, tail⟩, hloop, hperm, hle, hparted⟩ :=
    partitionLoop_spec excludes (Nat.zero_add _) le_rfl hstart
  have hlen : tail ≤ view.length := hperm.length_eq ▸ hle
  refine ⟨view, tail, hloop, hperm, hlen, hparted, ?_⟩
  rw [selectForwardingDestination, hloop, ok_bind]
  dsimp only
  split
  next => rfl
  next ht =>
    have hlt := Rng.randomRange_lt tail n.rng (Nat.pos_of_ne_zero ht)
    have hget := List.getElem?_eq_getElem (hlt.trans_le hlen)
    rw [randomRange, if_neg ht, ok_bind]
    dsimp only
    rw [hget]
    rfl

lemma selectForwardingDestination_spec [Rng R] (n : Node T R) (excludes : List T) :
    Yields (n.selectForwardingDestination excludes) (fun r => Selected n excludes r.1 r.2) := by
  obtain ⟨view, tail, _, hperm, hlen, hparted, heq⟩ := n.selectForwardingDestination_eq excludes
  rw [heq]
  split
  next ht =>
    refine .ok (.none (fun x hx => ?_) hperm)
    obtain ⟨j, hj⟩ := List.mem_iff_getElem?.mp (hperm.mem_iff.mpr hx)
    exact (hparted j x hj).2 (by omega)
  next ht =>
    have hlt := Rng.randomRange_lt tail n.rng (Nat.pos_of_ne_zero ht)
    have hget := List.getElem?_eq_getElem (hlt.trans_le hlen)
    rw [hget]
    exact .ok (.found (hperm.mem_iff.mp (List.getElem_mem _)) ((hparted _ _ hget).1 hlt) hperm)

def withRng {G : Type} (n : Node T R) (g : G) : Node T G :=
  ⟨n.id, n.actions, n.activeView, n.passiveView, g, n.options⟩

lemma selected_of_draw {G : Type} [Rng G] {n : Node T R} {excludes view : List T} {tail i : ℕ}
    {x : T} (hloop : partitionLoop excludes n.activeView.length n.activeView 0
      n.activeView.length = .ok (view, tail)) (hi : i < tail) (hx : view[i]? = some x) {g : G}
    (hg : (Rng.randomRange tail g).1 = i) :
    ∃ m, (n.withRng g).selectForwardingDestination excludes = .ok (some x, m) := by
  obtain ⟨view', tail', hloop', _, _, _, heq⟩ :=
    (n.withRng g).selectForwardingDestination_eq excludes
  cases hloop.symm.trans hloop'
  rw [heq, if_neg (by omega)]
  change ∃ m, (Except.ok (view[(Rng.randomRange tail g).1]?, _) : Exec _) = _
  rw [hg, hx]
  exact ⟨_, rfl⟩

/-- The loop splits the active view into the nodes that are not excluded and those that are. The
destination is none of the excluded nodes, and each of the others for one draw. -/
theorem forwarding_destination_exact [Rng R] (n : Node T R) (excludes : List T) :
    ∃ view tail,
    (∀ extra, partitionLoop excludes (n.activeView.length + extra) n.activeView 0
      n.activeView.length = .ok (view, tail)) ∧
    view.Perm n.activeView ∧ tail ≤ view.length ∧
    (∀ j x, view[j]? = some x → (j < tail ↔ x ∉ excludes)) ∧
    (∃ r m, n.selectForwardingDestination excludes = .ok (r, m) ∧ m.activeView = view ∧
      (r = none ↔ ∀ x ∈ n.activeView, x ∈ excludes) ∧
      ∀ x ∈ r, x ∈ n.activeView ∧ x ∉ excludes) ∧
    ∀ x ∈ n.activeView, x ∉ excludes →
      (∃ i < tail, ∀ g : R, (Rng.randomRange tail g).1 = i →
        ∃ m, (n.withRng g).selectForwardingDestination excludes = .ok (some x, m)) ∧
      ∃ (g : Playback) (m : Node T Playback),
        (n.withRng g).selectForwardingDestination excludes = .ok (some x, m) := by
  obtain ⟨view, tail, hloop, hperm, hlen, hparted, heq⟩ := n.selectForwardingDestination_eq excludes
  have hsplit : ∀ j x, view[j]? = some x → (j < tail ↔ x ∉ excludes) := by
    intro j x hj
    obtain ⟨hlt, hge⟩ := hparted j x hj
    exact ⟨hlt, fun hx => not_le.mp (mt hge hx)⟩
  refine ⟨view, tail, fun extra => ?_, hperm, hlen, hsplit, ?_, fun x hx hn => ?_⟩
  · rw [partitionLoop_extra excludes _ extra (Nat.zero_add _)]
    exact hloop
  · obtain ⟨⟨r, m⟩, hs, hsel⟩ := n.selectForwardingDestination_spec excludes
    have hview : m.activeView = view := by
      rw [heq] at hs
      split at hs <;> cases hs <;> rfl
    refine ⟨r, m, hs, hview, ?_⟩
    cases hsel with
    | found hx hn _ => exact ⟨iff_of_false (by simp) fun hall => hn (hall _ hx), by simp [hx, hn]⟩
    | none hall _ => exact ⟨iff_of_true rfl hall, by simp⟩
  · obtain ⟨i, hi⟩ := List.mem_iff_getElem?.mp (hperm.mem_iff.mpr hx)
    have hlt := (hsplit i x hi).mpr hn
    exact ⟨⟨i, hlt, fun g hg => selected_of_draw hloop hlt hi hg⟩, ⟨[i]⟩,
      selected_of_draw hloop hlt hi (Nat.mod_eq_of_lt hlt)⟩

end QuicP2p.Hyparview.Node
