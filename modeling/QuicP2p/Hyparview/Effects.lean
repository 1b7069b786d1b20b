import QuicP2p.Hyparview.Node

/-! What an operation can do to a node: the view invariant it keeps, and the actions by which
it tells of every change of the active view. -/

namespace QuicP2p.Hyparview

open Library

variable {T R : Type}

namespace Node

structure WellFormed (n : Node T R) : Prop where
  active_nodup : n.activeView.Nodup
  passive_nodup : n.passiveView.Nodup
  disjoint : ∀ x ∈ n.activeView, x ∉ n.passiveView
  id_active : n.id ∉ n.activeView
  id_passive : n.id ∉ n.passiveView
  active_le : n.activeView.length ≤ n.options.maxActiveViewSize.toNat
  passive_le : n.passiveView.length ≤ n.options.maxPassiveViewSize.toNat
  active_pos : 1 ≤ n.options.maxActiveViewSize.toNat
  passive_pos : 1 ≤ n.options.maxPassiveViewSize.toNat

/-- The part of the invariant of the views that does not read the options. -/
structure Sound (n : Node T R) : Prop where
  active_nodup : n.activeView.Nodup
  passive_nodup : n.passiveView.Nodup
  disjoint : ∀ x ∈ n.activeView, x ∉ n.passiveView
  id_active : n.id ∉ n.activeView
  id_passive : n.id ∉ n.passiveView

def Stranger (n : Node T R) (x : T) : Prop := x ∉ n.activeView ∧ x ≠ n.id

@[simp] lemma activeView_send (n : Node T R) (d : T) (m : ProtocolMessage T) :
    (n.send d m).activeView = n.activeView := rfl

@[simp] lemma activeView_pushBack (n : Node T R) (a : Action T) :
    (n.pushBack a).activeView = n.activeView := rfl

lemma sendEach_eq (n : Node T R) (ds : List T) (m : ProtocolMessage T) :
    n.sendEach ds m = { n with actions := n.actions ++ ds.map (.send · m) } := by
  induction ds generalizing n with
  | nil => simp [Node.sendEach]
  | cons d ds ih =>
    have h := ih (n.send d m)
    simpa [Node.sendEach, Node.send, Node.pushBack] using h

lemma activeView_syncActiveView (n : Node T R) : n.syncActiveView.activeView = n.activeView := by
  rw [syncActiveView, sendEach_eq]

section

variable {n m : Node T R}

namespace Sound

lemma congr (h : n.Sound) (hi : m.id = n.id) (ha : m.activeView.Perm n.activeView)
    (hp : m.passiveView.Perm n.passiveView) : m.Sound where
  active_nodup := ha.nodup_iff.mpr h.active_nodup
  passive_nodup := hp.nodup_iff.mpr h.passive_nodup
  disjoint x hx := by
    rw [hp.mem_iff]
    exact h.disjoint x (ha.mem_iff.mp hx)
  id_active := by
    rw [hi, ha.mem_iff]
    exact h.id_active
  id_passive := by
    rw [hi, hp.mem_iff]
    exact h.id_passive

lemma drop_passive (h : n.Sound) {x : T} {p : List T} (g : R)
    (hp : n.passiveView.Perm (x :: p)) : { n with passiveView := p, rng := g }.Sound where
  active_nodup := h.active_nodup
  passive_nodup := (hp.nodup_iff.mp h.passive_nodup).of_cons
  disjoint y hy hx := h.disjoint y hy (hp.mem_iff.mpr (List.mem_cons_of_mem _ hx))
  id_active := h.id_active
  id_passive hx := h.id_passive (hp.mem_iff.mpr (List.mem_cons_of_mem _ hx))

lemma drop_active (h : n.Sound) {x : T} {v : List T} (hv : n.activeView.Perm (x :: v))
    (acts : List (Action T)) : { n with activeView := v, actions := acts }.Sound where
  active_nodup := (hv.nodup_iff.mp h.active_nodup).of_cons
  passive_nodup := h.passive_nodup
  disjoint y hy := h.disjoint y (hv.mem_iff.mpr (List.mem_cons_of_mem _ hy))
  id_active hx := h.id_active (hv.mem_iff.mpr (List.mem_cons_of_mem _ hx))
  id_passive := h.id_passive

lemma push_passive (h : n.Sound) {x : T} (hx : n.Stranger x) (hp : x ∉ n.passiveView) :
    { n with passiveView := n.passiveView ++ [x] }.Sound where
  active_nodup := h.active_nodup
  passive_nodup := by
    rw [List.nodup_append_comm]
    exact List.nodup_cons.mpr ⟨hp, h.passive_nodup⟩
  disjoint := by
    intro y hy
    rw [List.mem_append, List.mem_singleton, not_or]
    refine ⟨h.disjoint y hy, ?_⟩
    rintro rfl
    exact hx.1 hy
  id_active := h.id_active
  id_passive := by
    rw [List.mem_append, List.mem_singleton, not_or]
    exact ⟨h.id_passive, fun he => hx.2 he.symm⟩

lemma push_active (h : n.Sound) {x : T} (hx : n.Stranger x) (hp : x ∉ n.passiveView)
    (acts : List (Action T)) :
    { n with activeView := n.activeView ++ [x], actions := acts }.Sound where
  active_nodup := by
    rw [List.nodup_append_comm]
    exact List.nodup_cons.mpr ⟨hx.1, h.active_nodup⟩
  passive_nodup := h.passive_nodup
  disjoint := by
    intro y hy
    rcases List.mem_append.mp hy with hy | hy
    · exact h.disjoint y hy
    · exact List.mem_singleton.mp hy ▸ hp
  id_active := by
    rw [List.mem_append, List.mem_singleton, not_or]
    exact ⟨h.id_active, fun he => hx.2 he.symm⟩
  id_passive := h.id_passive

lemma send (h : n.Sound) (d : T) (msg : ProtocolMessage T) : (n.send d msg).Sound :=
  h.congr rfl (.refl _) (.refl _)

lemma sendEach (h : n.Sound) (ds : List T) (msg : ProtocolMessage T) :
    (n.sendEach ds msg).Sound := by
  rw [sendEach_eq]
  exact h.congr rfl (.refl _) (.refl _)

lemma withOptions (id : T) (rng : R) (options : NodeOptions) :
    (withOptions id rng options).Sound where
  active_nodup := .nil
  passive_nodup := .nil
  disjoint x hx := by simp [Node.withOptions] at hx
  id_active := by simp [Node.withOptions]
  id_passive := by simp [Node.withOptions]

lemma wellFormed (h : m.Sound) (hn : n.WellFormed) (ho : m.options = n.options)
    (ha : m.activeView.length ≤ n.options.maxActiveViewSize.toNat)
    (hp : m.passiveView.length ≤ n.options.maxPassiveViewSize.toNat) : m.WellFormed where
  active_nodup := h.active_nodup
  passive_nodup := h.passive_nodup
  disjoint := h.disjoint
  id_active := h.id_active
  id_passive := h.id_passive
  active_le := ho ▸ ha
  passive_le := ho ▸ hp
  active_pos := ho ▸ hn.active_pos
  passive_pos := ho ▸ hn.passive_pos

end Sound

namespace WellFormed

lemma sound (h : n.WellFormed) : n.Sound :=
  ⟨h.active_nodup, h.passive_nodup, h.disjoint, h.id_active, h.id_passive⟩

lemma congr (h : n.WellFormed) (hi : m.id = n.id) (ho : m.options = n.options)
    (ha : m.activeView.Perm n.activeView) (hp : m.passiveView.Perm n.passiveView) :
    m.WellFormed :=
  (h.sound.congr hi ha hp).wellFormed h ho (ha.length_eq ▸ h.active_le)
    (hp.length_eq ▸ h.passive_le)

lemma send (h : n.WellFormed) (d : T) (msg : ProtocolMessage T) : (n.send d msg).WellFormed :=
  h.congr rfl rfl (.refl _) (.refl _)

lemma pushBack (h : n.WellFormed) (a : Action T) : (n.pushBack a).WellFormed :=
  h.congr rfl rfl (.refl _) (.refl _)

lemma sendEach (h : n.WellFormed) (ds : List T) (msg : ProtocolMessage T) :
    (n.sendEach ds msg).WellFormed := by
  rw [sendEach_eq]
  exact h.congr rfl rfl (.refl _) (.refl _)

lemma drop_active (h : n.WellFormed) {x : T} {v : List T}
    (hv : n.activeView.Perm (x :: v)) (acts : List (Action T)) :
    { n with activeView := v, actions := acts }.WellFormed := by
  apply (h.sound.drop_active hv acts).wellFormed h rfl _ h.passive_le
  have hl := h.active_le
  rw [hv.length_eq, List.length_cons] at hl
  exact Nat.le_of_succ_le hl

lemma push_active (h : n.WellFormed) {x : T} (ha : x ∉ n.activeView) (hp : x ∉ n.passiveView)
    (hi : x ≠ n.id) (hl : n.activeView.length < n.options.maxActiveViewSize.toNat)
    (acts : List (Action T)) :
    { n with activeView := n.activeView ++ [x], actions := acts }.WellFormed := by
  apply (h.sound.push_active ⟨ha, hi⟩ hp acts).wellFormed h rfl _ h.passive_le
  simpa using hl

end WellFormed

lemma withOptions_wellFormed (id : T) (rng : R) {options : NodeOptions}
    (ha : 1 ≤ options.maxActiveViewSize.toNat) (hp : 1 ≤ options.maxPassiveViewSize.toNat) :
    (withOptions id rng options).WellFormed where
  active_nodup := .nil
  passive_nodup := .nil
  disjoint x hx := by simp [withOptions] at hx
  id_active := by simp [withOptions]
  id_passive := by simp [withOptions]
  active_le := by simp [withOptions]
  passive_le := by simp [withOptions]
  active_pos := ha
  passive_pos := hp

lemma pollAction_wellFormed (h : n.WellFormed) : n.pollAction.2.WellFormed :=
  h.congr rfl rfl (.refl _) (.refl _)

end

end Node

variable [DecidableEq T]

/-- The neighbours after an event, if the event fits them. -/
def Event.apply (s : Finset T) : Event T → Option (Finset T)
  | .neighborUp x => if x ∈ s then none else some (insert x s)
  | .neighborDown x => if x ∈ s then some (s.erase x) else none

def Action.apply (s : Finset T) : Action T → Option (Finset T)
  | .notify e => e.apply s
  | .send _ _ => some s
  | .disconnect _ => some s

/-- The neighbours after the events among some actions, in order. -/
def replay (acts : List (Action T)) (s : Finset T) : Option (Finset T) :=
  acts.foldlM Action.apply s

@[simp] lemma replay_nil (s : Finset T) : replay [] s = some s := rfl

@[simp] lemma replay_cons (a : Action T) (acts : List (Action T)) (s : Finset T) :
    replay (a :: acts) s = (a.apply s).bind (replay acts) := List.foldlM_cons

@[simp] lemma replay_append (as bs : List (Action T)) (s : Finset T) :
    replay (as ++ bs) s = (replay as s).bind (replay bs) := List.foldlM_append

/-- A neighbour is lost by an event. -/
lemma down_of_replay {acts : List (Action T)} {s t : Finset T} (h : replay acts s = some t) {x : T}
    (hs : x ∈ s) (ht : x ∉ t) : .notify (.neighborDown x) ∈ acts := by
  induction acts generalizing s with
  | nil =>
    cases h
    exact absurd hs ht
  | cons a acts ih =>
    rw [replay_cons] at h
    obtain ⟨u, hu, h⟩ := Option.bind_eq_some_iff.mp h
    by_cases hx : x ∈ u
    · exact List.mem_cons_of_mem _ (ih h hx)
    · have ha : a = .notify (.neighborDown x) := by
        cases a with
        | notify e =>
          cases e with
          | neighborUp y =>
            simp only [Action.apply, Event.apply] at hu
            split_ifs at hu with hy
            cases hu
            exact absurd (Finset.mem_insert_of_mem hs) hx
          | neighborDown y =>
            simp only [Action.apply, Event.apply] at hu
            split_ifs at hu with hy
            cases hu
            by_cases hxy : x = y
            · rw [hxy]
            · exact absurd (Finset.mem_erase.mpr ⟨hxy, hs⟩) hx
        | _ =>
          cases hu
          exact absurd hs hx
      exact ha ▸ List.mem_cons_self

namespace Node

/-- The change from `n` to `n'`, told by the actions `acts` it queued. The nodes of `silent`
may leave the active view without a `DISCONNECT` to them. -/
structure Effect (silent : T → Prop) (n n' : Node T R) (acts : List (Action T)) : Prop where
  id_eq : n'.id = n.id
  options_eq : n'.options = n.options
  actions_eq : n'.actions = n.actions ++ acts
  replayed : replay acts n.activeView.toFinset = some n'.activeView.toFinset
  announced : ∀ x ∈ n'.activeView, x ∉ n.activeView →
    ∃ p, .send x (.neighbor ⟨n.id, p⟩) ∈ acts
  ups : ∀ x, .notify (.neighborUp x) ∈ acts → x ≠ n.id
  downs : ∀ x, .notify (.neighborDown x) ∈ acts →
    silent x ∨ .send x (.disconnect ⟨n.id, true⟩) ∈ acts
  closed : ∀ x, .disconnect x ∈ acts → x ∉ n'.activeView
  signed : ∀ d m, .send d m ∈ acts → m.sender = n.id
  alive : ∀ d m, .send d (.disconnect m) ∈ acts → m.alive = true

def Evolves (silent : T → Prop) (n n' : Node T R) : Prop :=
  n'.WellFormed ∧ ∃ acts, Effect silent n n' acts

namespace Effect

variable {silent : T → Prop} {n m k : Node T R} {as bs : List (Action T)}

lemma of_perm (hi : m.id = n.id) (ho : m.options = n.options) (ha : m.actions = n.actions)
    (hv : m.activeView.Perm n.activeView) : Effect silent n m [] where
  id_eq := hi
  options_eq := ho
  actions_eq := by simp [ha]
  replayed := by simp [List.toFinset_eq_of_perm _ _ hv]
  announced x hx hn := absurd (hv.mem_iff.mp hx) hn
  ups x hx := by simp at hx
  downs x hx := by simp at hx
  closed x hx := by simp at hx
  signed d m hm := by simp at hm
  alive d m hm := by simp at hm

lemma refl (n : Node T R) : Effect silent n n [] := of_perm rfl rfl rfl (.refl _)

/-- Two changes in a row, if the second brings back nobody whose connection the first closed. -/
lemma trans (h : Effect silent n m as) (h' : Effect silent m k bs)
    (hc : ∀ x, .disconnect x ∈ as → x ∉ k.activeView) : Effect silent n k (as ++ bs) where
  id_eq := h'.id_eq.trans h.id_eq
  options_eq := h'.options_eq.trans h.options_eq
  actions_eq := by rw [h'.actions_eq, h.actions_eq, List.append_assoc]
  replayed := by rw [replay_append, h.replayed, Option.bind_some, h'.replayed]
  announced x hx hn := by
    by_cases hm : x ∈ m.activeView
    · obtain ⟨p, hp⟩ := h.announced x hm hn
      exact ⟨p, List.mem_append_left _ hp⟩
    · obtain ⟨p, hp⟩ := h'.announced x hx hm
      exact ⟨p, List.mem_append_right _ (h.id_eq ▸ hp)⟩
  ups x hx := by
    rcases List.mem_append.mp hx with hx | hx
    · exact h.ups x hx
    · exact h.id_eq ▸ h'.ups x hx
  downs x hx := by
    rcases List.mem_append.mp hx with hx | hx
    · exact (h.downs x hx).imp_right (List.mem_append_left _)
    · exact (h'.downs x hx).imp_right fun hd => List.mem_append_right _ (h.id_eq ▸ hd)
  closed x hx := by
    rcases List.mem_append.mp hx with hx | hx
    · exact hc x hx
    · exact h'.closed x hx
  signed d m hm := by
    rcases List.mem_append.mp hm with hm | hm
    · exact h.signed d m hm
    · exact (h'.signed d m hm).trans h.id_eq
  alive d m hm := by
    rcases List.mem_append.mp hm with hm | hm
    · exact h.alive d m hm
    · exact h'.alive d m hm

lemma dismissed (h : Effect silent n m as) {x : T} (hx : x ∈ n.activeView)
    (hm : x ∉ m.activeView) : silent x ∨ .send x (.disconnect ⟨n.id, true⟩) ∈ as :=
  h.downs x (down_of_replay h.replayed (List.mem_toFinset.mpr hx) (mt List.mem_toFinset.mp hm))

lemma quiet_trans (h : Effect silent n m []) (h' : Effect silent m k bs) :
    Effect silent n k bs := h.trans h' (fun x hx => by simp at hx)

lemma trans_of_subset (h : Effect silent n m as) (h' : Effect silent m k bs)
    (hk : ∀ x ∈ k.activeView, x ∈ m.activeView) : Effect silent n k (as ++ bs) :=
  h.trans h' (fun x hx hx' => h.closed x hx (hk x hx'))

lemma send (n : Node T R) (d : T) (m : ProtocolMessage T) (hm : m.sender = n.id)
    (ha : ∀ x, m = .disconnect x → x.alive = true) : Effect silent n (n.send d m) [.send d m] where
  id_eq := rfl
  options_eq := rfl
  actions_eq := rfl
  replayed := rfl
  announced x hx hn := absurd hx hn
  ups x hx := by simp at hx
  downs x hx := by simp at hx
  closed x hx := by simp at hx
  signed d' m' h := by
    simp only [List.mem_singleton, Action.send.injEq] at h
    rw [h.2, hm]
  alive d' x h := by
    simp only [List.mem_singleton, Action.send.injEq] at h
    exact ha x h.2.symm

lemma sendEach (n : Node T R) (ds : List T) (m : ProtocolMessage T) (hm : m.sender = n.id)
    (ha : ∀ x, m = .disconnect x → x.alive = true) :
    Effect silent n (n.sendEach ds m) (ds.map (.send · m)) := by
  induction ds generalizing n with
  | nil => exact refl n
  | cons d ds ih =>
    exact (send n d m hm ha).trans (ih (n.send d m) hm) (fun x hx => by simp at hx)

end Effect

namespace Evolves

variable {silent : T → Prop} {n m k : Node T R}

lemma refl (h : n.WellFormed) : Evolves silent n n := ⟨h, [], Effect.refl n⟩

lemma id_eq (h : Evolves silent n m) : m.id = n.id := by
  obtain ⟨_, as, he⟩ := h
  exact he.id_eq

end Evolves

variable {n : Node T R}

/-- What a node that leaves the active view is told, and what the layers above are told of it. -/
def departure (id x : T) (alive : Bool) : List (Action T) :=
  (if alive then [.send x (.disconnect ⟨id, true⟩)] else []) ++
    [.disconnect x, .notify (.neighborDown x)]

lemma departure_effect (h : n.WellFormed) {x : T} {v : List T} (alive : Bool)
    (hv : n.activeView.Perm (x :: v)) :
    Effect (fun y => alive = false ∧ y = x) n
      { n with activeView := v, actions := n.actions ++ departure n.id x alive }
      (departure n.id x alive) := by
  have hx : x ∉ v := (List.nodup_cons.mp (hv.nodup_iff.mp h.active_nodup)).1
  have herase : n.activeView.toFinset.erase x = v.toFinset := by
    rw [List.toFinset_eq_of_perm _ _ hv, List.toFinset_cons,
      Finset.erase_insert (by simpa using hx)]
  have hmem : x ∈ n.activeView := hv.mem_iff.mpr List.mem_cons_self
  exact {
    id_eq := rfl
    options_eq := rfl
    actions_eq := rfl
    replayed := by cases alive <;> simp [departure, Action.apply, Event.apply, hmem, herase]
    announced := fun y hy hn => absurd (hv.mem_iff.mpr (List.mem_cons_of_mem _ hy)) hn
    ups := by
      intro y hy
      cases alive <;> simp [departure] at hy
    downs := by
      intro y hy
      have he : y = x := by cases alive <;> simpa [departure] using hy
      cases alive <;> simp [departure, he]
    closed := by
      intro y hy
      have he : y = x := by cases alive <;> simpa [departure] using hy
      exact he ▸ hx
    signed := by
      intro d m hm
      cases alive
      · simp [departure] at hm
      · have he : d = x ∧ m = .disconnect ⟨n.id, true⟩ := by simpa [departure] using hm
        rw [he.2]
        rfl
    alive := by
      intro d m hm
      cases alive
      · simp [departure] at hm
      · have he : d = x ∧ m = ⟨n.id, true⟩ := by simpa [departure] using hm
        rw [he.2] }

/-- What a node that joins the active view is told, and what the layers above are told of it. -/
def arrival (id x : T) (highPriority : Bool) : List (Action T) :=
  [.send x (.neighbor ⟨id, highPriority⟩), .notify (.neighborUp x)]

lemma arrival_effect {silent : T → Prop} {x : T} (hx : x ∉ n.activeView) (hi : x ≠ n.id)
    (p : Bool) :
    Effect silent n
      { n with activeView := n.activeView ++ [x], actions := n.actions ++ arrival n.id x p }
      (arrival n.id x p) where
  id_eq := rfl
  options_eq := rfl
  actions_eq := rfl
  replayed := by
    have hf : (n.activeView ++ [x]).toFinset = insert x n.activeView.toFinset := by
      rw [List.toFinset_append, List.toFinset_cons, List.toFinset_nil, Finset.union_comm]
      rfl
    simp [arrival, Action.apply, Event.apply, hx, hf]
  announced y hy hn := by
    have he : y = x := by
      rcases List.mem_append.mp hy with hy | hy
      · exact absurd hy hn
      · exact List.mem_singleton.mp hy
    exact ⟨p, by simp [arrival, he]⟩
  ups y hy := by
    have he : y = x := by simpa [arrival] using hy
    exact he ▸ hi
  downs y hy := by simp [arrival] at hy
  closed y hy := by simp [arrival] at hy
  signed d m hm := by
    have he : d = x ∧ m = .neighbor ⟨n.id, p⟩ := by simpa [arrival] using hm
    rw [he.2]
    rfl
  alive d m hm := by simp [arrival] at hm

end Node

end QuicP2p.Hyparview
