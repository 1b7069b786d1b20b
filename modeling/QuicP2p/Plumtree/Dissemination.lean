import QuicP2p.Plumtree.Integrity

/-! Every message reaches every node of a connected network that loses nothing. -/

namespace QuicP2p.Plumtree

open Library

variable {N I P : Type} [DecidableEq N] [DecidableEq I]

/-- The moves by which the nodes get to know their neighbours. -/
def SettingUp : Move N (Call N I P) → Prop
  | .call _ (.handleNeighborUp _) => True
  | .call _ (.tick _) => True
  | .call _ (.reorder _ _) => True
  | .call _ (.optionsMut _) => True
  | .call _ _ => False
  | _ => True

/-- The moves of a network that loses no message and whose links stay. -/
def Lossless : Move N (Call N I P) → Prop
  | .call _ c => c.Keeping ∧ c.Settled
  | .lose _ => False
  | _ => True

namespace Cluster

variable {ids : Finset N} {w w' w₀ : Cluster N I P} {mv : Move N (Call N I P)}
  {bs : List (Message I P)} {p u v : N} {m : Node N I P} {i : I}
  {input : Option (ProtocolMessage N I P)} {acts : List (Action N I P)}
  {used : Multiset (N × ProtocolMessage N I P)}
  {tr : List (Taken (Cluster N I P) (Move N (Call N I P)))}

/-- Each of the two nodes has the other among its peers. -/
def Linked (w : Cluster N I P) (u v : N) : Prop :=
  v ∈ (w.node u).neighbours ∧ u ∈ (w.node v).neighbours

instance (w : Cluster N I P) (u v : N) : Decidable (Linked w u v) :=
  inferInstanceAs (Decidable (_ ∧ _))

def links (ids : Finset N) (w : Cluster N I P) : SimpleGraph ids where
  Adj u v := u ≠ v ∧ Linked w u v
  symm := ⟨fun _ _ h => ⟨h.1.symm, h.2.symm⟩⟩
  loopless := ⟨fun _ h => h.1 rfl⟩

omit [DecidableEq I] in
lemma links_connected (hub : N) (hhub : hub ∈ ids)
    (h : ∀ v ∈ ids, v = hub ∨ hub ≠ v ∧ Linked w hub v) : (links ids w).Connected := by
  rw [SimpleGraph.connected_iff_exists_forall_reachable]
  refine ⟨⟨hub, hhub⟩, fun v => ?_⟩
  rcases h v v.2 with hv | ⟨hne, hl⟩
  · rw [show v = ⟨hub, hhub⟩ from Subtype.ext hv]
  · exact SimpleGraph.Adj.reachable ⟨fun h => hne (congrArg Subtype.val h), hl⟩

/-- The message of `u` will come to `v`: it is on its way, or its announcement is, or the
announcement waits at `v`, or the request of `v` is on its way. -/
def Promised (ids : Finset N) (w : Cluster N I P) (u v : N) (i : I) : Prop :=
  (∃ x r, (v, .gossip ⟨u, ⟨i, x⟩, r⟩) ∈ sent ids w) ∨
  (∃ r b, (v, .ihave ⟨u, i, r, b⟩) ∈ sent ids w) ∨
  (∃ a ∈ (w.node v).missings.waiting, a.2.sender = u ∧ a.2.messageId = i) ∨
  ∃ r, (u, .graft ⟨v, some i, r⟩) ∈ sent ids w

/-- What one end of a link holds, the other holds or will get. -/
def Served (ids : Finset N) (w : Cluster N I P) : Prop :=
  ∀ u ∈ ids, ∀ v ∈ ids, Linked w u v → ∀ i, (w.node u).Holds i →
    (w.node v).Holds i ∨ Promised ids w u v i

lemma Moved.neighbours_eq (hm : Moved ids w w' mv p m input acts used) (hmv : Lossless mv) (q : N) :
    (w'.node q).neighbours = (w.node q).neighbours := by
  by_cases hq : q = p
  · subst hq
    rw [hm.same.2.2.2]
    refine hm.settled fun q c hc => ?_
    subst hc
    exact hmv.2
  · rw [(hm.others q hq).1]

lemma Moved.serve_holder (hm : Moved ids w w' mv u m input acts used) (hw : Sound ids bs w)
    (hs : Served ids w) (hv : v ∈ ids) (huv : v ≠ u) (hl : Linked w u v)
    (hx : v ∈ m.neighbours) (hi : m.Holds i) (hno : ¬ (w.node v).Holds i) :
    Promised ids w' u v i := by
  have hu := hm.mem
  have hid := hw.id_eq u hu
  have hstay : ∀ msg, (v, msg) ∈ sent ids w → (v, msg) ∈ sent ids w' := by
    intro msg hmsg
    rcases hm.sent_of_sent hmsg with h | ⟨h, _⟩
    · exact h
    · exact absurd h huv
  rcases hm.effect.spread v hx i hi with ⟨_, hold⟩ | ha | ⟨g, hg, hsender, hgi⟩
  · rcases hs u hu v hv hl i hold with h | ⟨x, r, h⟩ | ⟨r, b, h⟩ | ⟨a, ha, h⟩ | ⟨r, h⟩
    · exact absurd h hno
    · exact .inl ⟨x, r, hstay _ h⟩
    · exact .inr (.inl ⟨r, b, hstay _ h⟩)
    · exact .inr (.inr (.inl ⟨a, by rwa [(hm.others v huv).1], h⟩))
    · rcases hm.sent_of_sent h with h | ⟨_, h | h⟩
      · exact .inr (.inr (.inr ⟨r, h⟩))
      · obtain ⟨x, r', hans⟩ := hm.effect.answered _ h i rfl hi
        rw [hm.effect.id_eq, hid] at hans
        exact .inl ⟨x, r', hm.sent_of_act hans⟩
      · exact absurd hl.1 h
  · rw [hid] at ha
    rcases ha with ⟨x, r, ha⟩ | ⟨r, b, ha⟩
    · exact .inl ⟨x, r, hm.sent_of_act ha⟩
    · exact .inr (.inl ⟨r, b, hm.sent_of_act ha⟩)
  · cases hm.trigger with
    | internal => simp at hg
    | broadcast hp b =>
      cases hg
      exact absurd (hsender.symm.trans hid) huv
    | arrival hb hin _ =>
      cases hg
      have hh := (hw.gossiped _ _ hin).2.2
      rw [hsender, hgi] at hh
      exact absurd hh hno

lemma Moved.serve_waiter (hm : Moved ids w w' mv v m input acts used) (hw : Sound ids bs w)
    (huv : u ≠ v) (hl : Linked w u v) (hx : u ∈ m.neighbours) (hno : ¬ m.Holds i)
    (h : Promised ids w u v i) : Promised ids w' u v i := by
  have hmissings := hm.same.2.2.1
  rcases h with ⟨x, r, h⟩ | ⟨r, b, h⟩ | ⟨a, ha, hau, hai⟩ | ⟨r, h⟩
  · rcases hm.sent_of_sent h with h | ⟨_, h | h⟩
    · exact .inl ⟨x, r, h⟩
    · exact absurd (hm.effect.answered _ h) hno
    · exact absurd hl.2 h
  · rcases hm.sent_of_sent h with h | ⟨_, h | h⟩
    · exact .inr (.inl ⟨r, b, h⟩)
    · rcases hm.effect.answered _ h with h | ⟨t, b', h⟩
      · exact absurd h hno
      · exact .inr (.inr (.inl ⟨_, hmissings ▸ h, rfl, rfl⟩))
    · exact absurd hl.2 h
  · rcases hm.effect.kept a ha with h | h | ⟨r, h⟩ | h
    · exact .inr (.inr (.inl ⟨a, hmissings ▸ h, hau, hai⟩))
    · exact absurd (hai ▸ h) hno
    · rw [hau, hai, hw.id_eq v hm.mem] at h
      exact .inr (.inr (.inr ⟨r, hm.sent_of_act h⟩))
    · exact absurd (hau ▸ hx) h
  · rcases hm.sent_of_sent h with h | ⟨h, _⟩
    · exact .inr (.inr (.inr ⟨r, h⟩))
    · exact absurd h huv

lemma Served.moved (hs : Served ids w) (hw : Sound ids bs w) (hmv : Lossless mv)
    (hm : Moved ids w w' mv p m input acts used) : Served ids w' := by
  intro u hu v hv hl' i hi
  by_cases hno : (w'.node v).Holds i
  · exact .inl hno
  · have huv : v ≠ u := by
      rintro rfl
      exact hno hi
    have hl : Linked w u v := by
      rw [Linked, hm.neighbours_eq hmv, hm.neighbours_eq hmv] at hl'
      exact hl'
    have hno' : ¬ (w.node v).Holds i := fun h => hno (hm.holds h)
    refine .inr ?_
    by_cases hup : u = p
    · subst hup
      exact hm.serve_holder hw hs hv huv hl (hm.same.2.2.2 ▸ hl'.1) (hm.holds_self.mp hi) hno'
    · rw [(hm.others u hup).1] at hi
      have hold := (hs u hu v hv hl i hi).resolve_left hno'
      by_cases hvp : v = p
      · subst hvp
        exact hm.serve_waiter hw huv.symm hl (hm.same.2.2.2 ▸ hl'.2)
          (fun h => hno (hm.holds_self.mpr h)) hold
      · have hstay : ∀ q msg, q ≠ p → (q, msg) ∈ sent ids w → (q, msg) ∈ sent ids w' := by
          intro q msg hq hmsg
          rcases hm.sent_of_sent hmsg with h | ⟨h, _⟩
          · exact h
          · exact absurd h hq
        rcases hold with ⟨x, r, h⟩ | ⟨r, b, h⟩ | ⟨a, ha, h⟩ | ⟨r, h⟩
        · exact .inl ⟨x, r, hstay _ _ hvp h⟩
        · exact .inr (.inl ⟨r, b, hstay _ _ hvp h⟩)
        · exact .inr (.inr (.inl ⟨a, by rwa [(hm.others v hvp).1], h⟩))
        · exact .inr (.inr (.inr ⟨r, hstay _ _ hup h⟩))

lemma Served.still (hs : Served ids w) (hmv : Lossless mv) (h : Still ids w w' mv) :
    Served ids w' := by
  have hkept := h.kept fun i hi => by
    subst hi
    exact hmv
  intro u hu v hv hl i hi
  rw [Linked, h.node_eq] at hl
  rw [h.node_eq] at hi ⊢
  rcases hs u hu v hv hl i hi with h' | ⟨x, r, h'⟩ | ⟨r, b, h'⟩ | ⟨a, ha, h'⟩ | ⟨r, h'⟩
  · exact .inl h'
  · exact .inr (.inl ⟨x, r, hkept v hv _ h'⟩)
  · exact .inr (.inr (.inl ⟨r, b, hkept v hv _ h'⟩))
  · exact .inr (.inr (.inr (.inl ⟨a, by rwa [h.node_eq], h'⟩)))
  · exact .inr (.inr (.inr (.inr ⟨r, hkept u hu _ h'⟩)))

omit [DecidableEq N] [DecidableEq I] in
lemma keeping_of_lossless (h : Lossless mv) : Keeping mv := by
  cases mv with
  | call p c => exact h.1
  | _ => trivial

omit [DecidableEq I] in
lemma silent_of_settingUp (ids : Finset N) (h : SettingUp mv) :
    Keeping mv ∧ broadcastOf ids mv = none := by
  cases mv with
  | call p c => cases c <;> first | exact h.elim | exact ⟨trivial, rfl⟩
  | _ => exact ⟨trivial, rfl⟩

/-- Nothing is stored or on its way before the first broadcast, but announcements may not be. -/
lemma sound_of_setup {options : N → NodeOptions} {choices : N → List ℕ}
    (h : Run (Network.step protocol ids) (fresh options choices) tr w)
    (hsetup : ∀ e ∈ tr, SettingUp e.input) : Sound ids [] w := by
  have hb : broadcasts ids tr = [] :=
    List.filterMap_eq_nil_iff.mpr fun e he => (silent_of_settingUp ids (hsetup e he)).2
  have hw := (sound_of_run (fresh_sound options choices) (fresh_logged options choices) h
    (fun e he => (silent_of_settingUp ids (hsetup e he)).1) (by simp [hb])).1
  rwa [hb] at hw

/-- What a run of a lossless network keeps. -/
structure Spreading (ids : Finset N) (w₀ : Cluster N I P) (bs : List (Message I P))
    (w : Cluster N I P) : Prop where
  sound : Sound ids bs w
  served : Served ids w
  peers : ∀ p, (w.node p).neighbours = (w₀.node p).neighbours
  held : ∀ m ∈ bs, ∃ p ∈ ids, (w.node p).Holds m.id

lemma Spreading.step (h : Spreading ids w₀ bs w) (hs : Network.step protocol ids w mv = .ok w')
    (hmv : Lossless mv) (hfresh : ((bs ++ (broadcastOf ids mv).toList).map Message.id).Nodup) :
    Spreading ids w₀ (bs ++ (broadcastOf ids mv).toList) w' := by
  rcases h.sound.cases hs (keeping_of_lossless hmv) hfresh with
    ⟨p, m, input, acts, used, hm⟩ | hstill
  · refine ⟨h.sound.moved hm, h.served.moved h.sound hmv hm,
      fun q => (hm.neighbours_eq hmv q).trans (h.peers q), ?_⟩
    intro b hb
    rcases List.mem_append.mp hb with hb | hb
    · obtain ⟨q, hq, hh⟩ := h.held b hb
      exact ⟨q, hq, hm.holds hh⟩
    · have hb : broadcastOf ids mv = some b := by simpa using hb
      cases hm.trigger with
      | internal hn => simp [hn] at hb
      | broadcast hp b' =>
        simp only [broadcastOf, if_pos hp, Option.some.injEq] at hb
        subst hb
        exact ⟨p, hp, hm.holds_self.mpr (hm.effect.answered _ rfl)⟩
      | arrival hn => simp [hn] at hb
  · rw [hstill.silent]
    simp only [Option.toList_none, List.append_nil]
    exact ⟨h.sound.still hstill, h.served.still hmv hstill,
      fun q => by rw [hstill.node_eq, h.peers q], fun b hb => by
        rw [hstill.node_eq]
        exact h.held b hb⟩

lemma spreading_of_run (h₀ : Sound ids [] w₀) (h : Run (Network.step protocol ids) w₀ tr w)
    (hmoves : ∀ e ∈ tr, Lossless e.input)
    (hfresh : ((broadcasts ids tr).map Message.id).Nodup) :
    Spreading ids w₀ (broadcasts ids tr) w := by
  refine h.history (P := fun tr w => (∀ e ∈ tr, Lossless e.input) →
    ((broadcasts ids tr).map Message.id).Nodup → Spreading ids w₀ (broadcasts ids tr) w)
    ?_ ?_ hmoves hfresh
  · intro tr w mv w' ih hs hmoves hfresh
    rw [broadcasts_concat] at hfresh ⊢
    have hprefix : ((broadcasts ids tr).map Message.id).Nodup := by
      rw [List.map_append] at hfresh
      exact hfresh.of_append_left
    exact (ih (fun e he => hmoves e (List.mem_append_left _ he)) hprefix).step hs
      (hmoves ⟨w, mv, w'⟩ (by simp)) hfresh
  · intro _ _
    refine ⟨h₀, ?_, fun _ => rfl, by simp [broadcasts]⟩
    rintro u hu v _ _ i ⟨x, hx⟩
    have hx := h₀.stored u hu i x hx
    simp at hx

/-- At rest, nothing is promised any more. -/
lemma Served.at_rest (hs : Served ids w) (hflight : w.flight = [])
    (hqueues : ∀ p ∈ ids, (w.node p).actions = [])
    (hwaiting : ∀ p ∈ ids, (w.node p).missings.waiting = 0) (hu : u ∈ ids) (hv : v ∈ ids)
    (hl : Linked w u v) (hi : (w.node u).Holds i) : (w.node v).Holds i := by
  have hnone : ∀ e, e ∉ sent ids w := by
    intro e he
    rcases Network.mem_transit.mp he with he | ⟨p, hp, he⟩
    · simp [hflight] at he
    · simp [Node.queued, hqueues p hp] at he
  rcases hs u hu v hv hl i hi with h | ⟨x, r, h⟩ | ⟨r, b, h⟩ | ⟨a, ha, _⟩ | ⟨r, h⟩
  · exact h
  · exact absurd h (hnone _)
  · exact absurd h (hnone _)
  · simp [hwaiting v hv] at ha
  · exact absurd h (hnone _)

/-- At rest every node of a connected network has every message, and misses none. -/
theorem reliable_dissemination {options : N → NodeOptions} {choices : N → List ℕ}
    {setup : List (Taken (Cluster N I P) (Move N (Call N I P)))}
    (hsetup : Run (Network.step protocol ids) (fresh options choices) setup w₀)
    (hup : ∀ e ∈ setup, SettingUp e.input) (hconn : (links ids w₀).Connected)
    (h : Run (Network.step protocol ids) w₀ tr w) (hmoves : ∀ e ∈ tr, Lossless e.input)
    (hfresh : ((broadcasts ids tr).map Message.id).Nodup) (hflight : w.flight = [])
    (hqueues : ∀ p ∈ ids, (w.node p).actions = [])
    (hwaiting : ∀ p ∈ ids, (w.node p).missings.waiting = 0) (hp : p ∈ ids) :
    (∀ m ∈ broadcasts ids tr, (w.node p).messages.get m.id = some m.payload) ∧
      (w.node p).waitingMessages = 0 := by
  have hw := spreading_of_run (sound_of_setup hsetup hup) h hmoves hfresh
  have hspread : ∀ {a b : ids}, (links ids w₀).Reachable a b → ∀ i, (w.node a).Holds i →
      (w.node b).Holds i := by
    rintro a b ⟨walk⟩ i hi
    induction walk with
    | nil => exact hi
    | @cons a c b hadj _ ih =>
      refine ih (hw.served.at_rest hflight hqueues hwaiting a.2 c.2 ?_ hi)
      rw [Linked, hw.peers, hw.peers]
      exact hadj.2
  have hall : ∀ m ∈ broadcasts ids tr, (w.node p).Holds m.id := by
    intro m hm
    obtain ⟨q, hq, hh⟩ := hw.held m hm
    exact hspread (hconn ⟨q, hq⟩ ⟨p, hp⟩) m.id hh
  constructor
  · intro m hm
    obtain ⟨x, hx⟩ := hall m hm
    have hb := hw.sound.stored p hp m.id x hx
    have he := List.inj_on_of_nodup_map hfresh hb hm rfl
    rw [hx, ← he]
  · have hkeys : (w.node p).missings.ihaves.keys = [] := by
      rw [List.eq_nil_iff_forall_not_mem]
      intro i hi
      have hr : (w.node p).missings.Recorded i := HashMap.mem_keys.mp hi
      obtain ⟨x, hx⟩ := hw.sound.recorded p hp i hr
      exact (hw.sound.wellFormed p hp).recorded i hr (hall _ hx)
    rw [Node.waitingMessages, MissingMessages.waitingMessages, HashMap.len, hkeys,
      List.length_nil]

/-- Three nodes in a line. -/
def line : List (Move ℕ (Call ℕ ℕ ℕ)) :=
  [.call 0 (.handleNeighborUp 1), .call 1 (.handleNeighborUp 0), .call 1 (.handleNeighborUp 2),
    .call 2 (.handleNeighborUp 1)]

/-- The first node of the line broadcasts, and every message is delivered. -/
def relay : List (Move ℕ (Call ℕ ℕ ℕ)) :=
  [.call 0 (.broadcastMessage ⟨7, 70⟩), .poll 0, .poll 0, .deliver 0, .poll 1, .poll 1, .deliver 0,
    .poll 2]

def lined : Cluster ℕ ℕ ℕ :=
  reached (Network.step protocol {0, 1, 2}) (fresh (fun _ => {}) (fun _ => [])) line

theorem reliable_dissemination_line :
    ∃ (setup tr : List (Taken (Cluster ℕ ℕ ℕ) (Move ℕ (Call ℕ ℕ ℕ)))) (w : Cluster ℕ ℕ ℕ),
      Run (Network.step protocol {0, 1, 2}) (fresh (fun _ => {}) (fun _ => [])) setup lined ∧
        Run (Network.step protocol {0, 1, 2}) lined tr w ∧ broadcasts {0, 1, 2} tr = [⟨7, 70⟩] ∧
        (∀ m ∈ broadcasts {0, 1, 2} tr, (w.node 2).messages.get m.id = some m.payload) ∧
        (w.node 2).waitingMessages = 0 := by
  have hsetup : follow (Network.step protocol {0, 1, 2})
      (fresh (fun _ => {}) (fun _ => [])) line = .ok (_, lined) := rfl
  have hrun : follow (Network.step protocol {0, 1, 2}) lined relay = .ok _ := rfl
  have hconn : (links {0, 1, 2} lined).Connected := links_connected 1 (by decide) (by decide)
  exact ⟨_, _, _, Run.of_follow line hsetup, Run.of_follow relay hrun, rfl,
    reliable_dissemination (Run.of_follow line hsetup)
      (Run.inputs_of_follow line hsetup (by simp [line, SettingUp])) hconn
      (Run.of_follow relay hrun)
      (Run.inputs_of_follow relay hrun (by simp [relay, Lossless, Call.Keeping, Call.Settled]))
      (by decide) rfl (by decide) (by decide) (by decide)⟩

end Cluster

end QuicP2p.Plumtree
