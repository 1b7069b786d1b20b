import QuicP2p.Hyparview.Operations
import QuicP2p.Library.Network

/-! Networks of HyParView nodes, and the symmetry of their active views at rest. -/

namespace QuicP2p.Hyparview

open Library

variable {T R : Type}

def Action.outgoing : Action T → Option (T × ProtocolMessage T)
  | .send destination message => some (destination, message)
  | _ => none

def protocol [Rng R] [DecidableEq T] :
    Protocol Stop T (Node T R) (ProtocolMessage T) (Operation T) where
  call := Node.perform
  receive := Node.handleProtocolMessage
  poll n := .ok (n.pollAction.1.bind Action.outgoing, n.pollAction.2)

abbrev Cluster (T R : Type) := Network T (Node T R) (ProtocolMessage T)

/-- The nodes at the start, each with its own options and generator. -/
def fresh (options : T → NodeOptions) (rng : T → R) : Cluster T R :=
  ⟨fun p => Node.withOptions p (rng p) (options p), []⟩

/-- The calls of a node that never declares a peer dead and forges no message. -/
def Operation.Ordinary : Operation T → Prop
  | .disconnect _ alive => alive = true
  | .handleProtocolMessage _ => False
  | _ => True

/-- The moves of a network that loses no message. -/
def Lossless : Move T (Operation T) → Prop
  | .call _ op => op.Ordinary
  | .lose _ => False
  | _ => True

lemma silent_of_ordinary {op : Operation T} (h : op.Ordinary) (x : T) : ¬ op.silent x := by
  cases op with
  | disconnect y alive => simp_all [Operation.Ordinary, Operation.silent]
  | handleProtocolMessage m => exact h.elim
  | _ => exact id

namespace Cluster

/-- The message waits in the queue of a member, or is in flight. -/
def Pending (ids : Finset T) (w : Cluster T R) (d : T) (m : ProtocolMessage T) : Prop :=
  (d, m) ∈ w.flight ∨ ∃ p ∈ ids, .send d m ∈ (w.node p).actions

/-- The members are in order, and no message on its way reports a peer as dead. -/
structure Sane (ids : Finset T) (w : Cluster T R) : Prop where
  wellFormed : ∀ p ∈ ids, (w.node p).WellFormed
  id_eq : ∀ p ∈ ids, (w.node p).id = p
  alive : ∀ d m, Pending ids w d (.disconnect m) → m.alive = true

/-- Where `p` has `q` in its active view and `q` does not have `p`, a message is on its way that
will bring them to agree. -/
def Mending (ids : Finset T) (w : Cluster T R) (p q : T) : Prop :=
  q ∈ (w.node p).activeView → p ∉ (w.node q).activeView →
    (∃ h, Pending ids w q (.neighbor ⟨p, h⟩)) ∨ Pending ids w p (.disconnect ⟨q, true⟩)

structure Mended (ids : Finset T) (w : Cluster T R) : Prop extends Sane ids w where
  mended : ∀ p ∈ ids, ∀ q ∈ ids, Mending ids w p q

/-- The message is one that either of two nodes sends to the other. -/
def Between (a b d : T) (m : ProtocolMessage T) : Prop :=
  d = a ∧ m.sender = b ∨ d = b ∧ m.sender = a

/-- The move loses no message between the two nodes, and `b` does not drop `a` in silence. -/
def Spares (w : Cluster T R) (a b : T) : Move T (Operation T) → Prop
  | .call p op => p = b → ¬ op.silent a
  | .lose i => ∀ d m, w.flight[i]? = some (d, m) → ¬ Between a b d m
  | _ => True

variable {ids : Finset T} {w : Cluster T R} {p : T} {n : Node T R}
  {rest : List (T × ProtocolMessage T)}

lemma spares_of_lossless {mv : Move T (Operation T)} (h : Lossless mv) (a b : T) :
    Spares w a b mv := by
  cases mv with
  | call p op => exact fun _ => silent_of_ordinary h a
  | lose i => exact h.elim
  | _ => trivial

variable [DecidableEq T]

lemma pending_act (hp : p ∈ ids) {silent : T → Prop} (he : Node.Evolves silent (w.node p) n)
    (hrest : ∀ d ∈ ids, ∀ m, (d, m) ∈ w.flight → (d, m) ∈ rest ∨ d = p ∧ n.Settled m)
    {d : T} (hd : d ∈ ids) {m : ProtocolMessage T} (h : Pending ids w d m) :
    Pending ids { w.update p n with flight := rest } d m ∨ d = p ∧ n.Settled m := by
  rcases h with hf | ⟨q, hq, ha⟩
  · exact (hrest d hd m hf).imp_left .inl
  · refine .inl (.inr ⟨q, hq, ?_⟩)
    obtain ⟨_, as, he⟩ := he
    by_cases hqp : q = p
    · subst hqp
      simpa [he.actions_eq] using .inl ha
    · simpa [Network.node_update_of_ne w hqp] using ha

lemma pending_new (hp : p ∈ ids) {d : T} {m : ProtocolMessage T} (h : .send d m ∈ n.actions) :
    Pending ids { w.update p n with flight := rest } d m :=
  .inr ⟨p, hp, by simpa using h⟩

/-- What is to mend a link is still on its way, unless the node that moved settled it. -/
lemma mending_act (hp : p ∈ ids) {silent : T → Prop} (he : Node.Evolves silent (w.node p) n)
    (hrest : ∀ d ∈ ids, ∀ m, (d, m) ∈ w.flight → (d, m) ∈ rest ∨ d = p ∧ n.Settled m)
    {a b : T} (ha : a ∈ ids) (hb : b ∈ ids)
    (h : (∃ x, Pending ids w b (.neighbor ⟨a, x⟩)) ∨ Pending ids w a (.disconnect ⟨b, true⟩))
    (hother : b = p → ∀ x, ¬ n.Settled (.neighbor ⟨a, x⟩))
    (hholder : a = p → ¬ n.Settled (.disconnect ⟨b, true⟩)) :
    (∃ x, Pending ids { w.update p n with flight := rest } b (.neighbor ⟨a, x⟩)) ∨
      Pending ids { w.update p n with flight := rest } a (.disconnect ⟨b, true⟩) := by
  rcases h with ⟨x, hx⟩ | hx
  · rcases pending_act hp he hrest hb hx with hx | ⟨hbp, hs⟩
    · exact .inl ⟨x, hx⟩
    · exact absurd hs (hother hbp x)
  · rcases pending_act hp he hrest ha hx with hx | ⟨hap, hs⟩
    · exact .inr hx
    · exact absurd hs (hholder hap)

lemma Sane.act (h : Sane ids w) (hp : p ∈ ids) {silent : T → Prop}
    (he : Node.Evolves silent (w.node p) n) (hsub : ∀ e ∈ rest, e ∈ w.flight) :
    Sane ids { w.update p n with flight := rest } := by
  obtain ⟨hw, as, he⟩ := he
  refine ⟨Network.forall_update (Q := fun _ (m : Node T R) => m.WellFormed) h.wellFormed hw,
    Network.forall_update (Q := fun q (m : Node T R) => m.id = q) h.id_eq
      (he.id_eq.trans (h.id_eq p hp)), ?_⟩
  intro d m hm
  rcases hm with hm | ⟨q, hq, hm⟩
  · exact h.alive d m (.inl (hsub _ hm))
  · by_cases hqp : q = p
    · subst hqp
      simp only [Network.node_update_self, he.actions_eq, List.mem_append] at hm
      rcases hm with hm | hm
      · exact h.alive d m (.inr ⟨q, hp, hm⟩)
      · exact he.alive d m hm
    · exact h.alive d m (.inr ⟨q, hq, by simpa [Network.node_update_of_ne w hqp] using hm⟩)

/-- The step lemma: one node evolves, and a message that left the flight was settled by it. -/
lemma Mending.act {a b : T} (hm : Mending ids w a b) (h : Sane ids w) (hp : p ∈ ids)
    {silent : T → Prop} (he : Node.Evolves silent (w.node p) n) (hsilent : p = b → ¬ silent a)
    (hrest : ∀ d ∈ ids, ∀ m, (d, m) ∈ w.flight → (d, m) ∈ rest ∨ d = p ∧ n.Settled m)
    (ha : a ∈ ids) (hb : b ∈ ids) : Mending ids { w.update p n with flight := rest } a b := by
  have hkept := fun {a b} => mending_act (a := a) (b := b) hp he hrest
  obtain ⟨hw, as, he⟩ := he
  have hid : n.id = p := he.id_eq.trans (h.id_eq p hp)
  have hnew : ∀ a ∈ as, a ∈ n.actions := fun a ha => by
    rw [he.actions_eq]
    exact List.mem_append_right _ ha
  intro hab hba
  have hne : a ≠ b := by
    rintro rfl
    exact hba hab
  by_cases hap : a = p
  · -- the holder moved: it kept `b`, or announced itself to `b`
    subst hap
    simp only [Network.node_update_self, Network.node_update_of_ne w hne.symm] at hab hba
    by_cases hold : b ∈ (w.node a).activeView
    · exact hkept ha hb (hm hold hba) (fun hba => absurd hba hne.symm) fun _ hs => hs hab
    · obtain ⟨x, hx⟩ := he.announced b hab hold
      rw [h.id_eq a ha] at hx
      exact .inl ⟨x, pending_new ha (hnew _ hx)⟩
  · by_cases hbp : b = p
    · -- the other end moved: it dismissed `a`, or answered the announcement of `a`
      subst hbp
      simp only [Network.node_update_self, Network.node_update_of_ne w hne] at hab hba
      by_cases hold : a ∈ (w.node b).activeView
      · rcases he.dismissed hold hba with hs | hs
        · exact absurd hs (hsilent rfl)
        · rw [h.id_eq b hb] at hs
          exact .inr (pending_new hb (hnew _ hs))
      · by_cases hreply : .send a (.disconnect ⟨b, true⟩) ∈ n.actions
        · exact .inr (pending_new hb hreply)
        · refine hkept ha hb (hm hab hold) (fun _ x hs => ?_) fun hab => absurd hab hne
          rcases hs with hs | hs | hs
          · exact hba hs
          · exact hne (hs.trans hid)
          · exact hreply (hid ▸ hs)
    · simp only [Network.node_update_of_ne w hap, Network.node_update_of_ne w hbp] at hab hba
      exact hkept ha hb (hm hab hba) (fun h => absurd h hbp) fun h => absurd h hap

omit [DecidableEq T] in
lemma Mending.of_pending {w' : Cluster T R} {a b : T} (h : Mending ids w a b)
    (hv : ∀ p, (w'.node p).activeView = (w.node p).activeView)
    (hnew : ∀ d ∈ ids, ∀ m, Between a b d m → Pending ids w d m → Pending ids w' d m)
    (ha : a ∈ ids) (hb : b ∈ ids) : Mending ids w' a b := by
  intro hab hba
  rw [hv] at hab hba
  rcases h hab hba with ⟨x, hx⟩ | hx
  · exact .inl ⟨x, hnew b hb _ (.inr ⟨rfl, rfl⟩) hx⟩
  · exact .inr (hnew a ha _ (.inl ⟨rfl, rfl⟩) hx)

omit [DecidableEq T] in
lemma pending_discard {d : T} {m : ProtocolMessage T} (hd : d ∉ ids)
    (hf : w.flight.Perm ((d, m) :: rest)) {d' : T} (hd' : d' ∈ ids) {m' : ProtocolMessage T}
    (h : Pending ids w d' m') : Pending ids { w with flight := rest } d' m' := by
  refine h.imp_left fun h => ?_
  rcases List.mem_cons.mp (hf.mem_iff.mp h) with he | h
  · cases he
    exact absurd hd' hd
  · exact h

omit [DecidableEq T] in
lemma Sane.sublist (h : Sane ids w) (hf : ∀ e ∈ rest, e ∈ w.flight) :
    Sane ids { w with flight := rest } :=
  ⟨h.wellFormed, h.id_eq, fun d m hm => h.alive d m (hm.imp_left (hf _))⟩

variable [Rng R]

/-- The action that is taken from a queue either waits no longer, or is a message that is now in
flight. -/
lemma pending_poll_iff (hp : p ∈ ids) {out : Option (T × ProtocolMessage T)}
    (hs : protocol.poll (w.node p) = .ok (out, n)) {d : T} {m : ProtocolMessage T} :
    Pending ids { w.update p n with flight := w.flight ++ out.toList } d m ↔ Pending ids w d m := by
  cases hs
  have hout : ∀ d m, (d, m) ∈ ((w.node p).actions.head?.bind Action.outgoing).toList ↔
      (w.node p).actions.head? = some (.send d m) := by
    intro d m
    cases (w.node p).actions.head? with
    | none => simp
    | some a => cases a <;> simp [Action.outgoing, eq_comm]
  have hact : ∀ a, a ∈ (w.node p).actions ↔
      (w.node p).actions.head? = some a ∨ a ∈ (w.node p).actions.tail := by
    intro a
    cases (w.node p).actions <;> simp [eq_comm]
  constructor
  · rintro (hm | ⟨q, hq, hm⟩)
    · rcases List.mem_append.mp hm with hm | hm
      · exact .inl hm
      · exact .inr ⟨p, hp, (hact _).mpr (.inl ((hout d m).mp hm))⟩
    · by_cases hqp : q = p
      · subst hqp
        exact .inr ⟨q, hp, (hact _).mpr (.inr (by simpa [Node.pollAction] using hm))⟩
      · exact .inr ⟨q, hq, by simpa [Network.node_update_of_ne w hqp] using hm⟩
  · rintro (hm | ⟨q, hq, hm⟩)
    · exact .inl (List.mem_append_left _ hm)
    · by_cases hqp : q = p
      · subst hqp
        rcases (hact _).mp hm with hm | hm
        · exact .inl (List.mem_append_right _ ((hout d m).mpr hm))
        · exact .inr ⟨q, hp, by simpa [Node.pollAction] using hm⟩
      · exact .inr ⟨q, hq, by simpa [Network.node_update_of_ne w hqp] using hm⟩

lemma view_poll {out : Option (T × ProtocolMessage T)}
    (hs : protocol.poll (w.node p) = .ok (out, n)) (q : T) :
    ((w.update p n).node q).activeView = (w.node q).activeView := by
  cases hs
  by_cases hqp : q = p
  · simp [hqp, Node.pollAction]
  · simp [Network.node_update_of_ne w hqp]

lemma Sane.poll (h : Sane ids w) (hp : p ∈ ids) {out : Option (T × ProtocolMessage T)}
    (hs : protocol.poll (w.node p) = .ok (out, n)) :
    Sane ids { w.update p n with flight := w.flight ++ out.toList } := by
  have hpending := fun d m => pending_poll_iff (d := d) (m := m) hp hs
  cases hs
  refine ⟨Network.forall_update (Q := fun _ (m : Node T R) => m.WellFormed) h.wellFormed
    (Node.pollAction_wellFormed (h.wellFormed p hp)),
    Network.forall_update (Q := fun q (m : Node T R) => m.id = q) h.id_eq (h.id_eq p hp), ?_⟩
  exact fun d m hm => h.alive d m ((hpending d _).mp hm)

lemma Sane.step {w' : Cluster T R} {mv : Move T (Operation T)} (h : Sane ids w)
    (hs : Network.step protocol ids w mv = .ok w') : Sane ids w' := by
  cases Network.change_of_step hs with
  | idle => exact h
  | called hp hc =>
    exact h.act hp ((Node.perform_spec (h.wellFormed _ hp) _).of_ok hc) fun _ he => he
  | polled hp hc => exact h.poll hp hc
  | delivered hd hf hc =>
    exact h.act hd ((Node.handleProtocolMessage_spec (h.wellFormed _ hd) _).of_ok hc).1
      fun e he => hf.mem_iff.mpr (List.mem_cons_of_mem _ he)
  | duplicated hd hm hc =>
    exact h.act hd ((Node.handleProtocolMessage_spec (h.wellFormed _ hd) _).of_ok hc).1
      fun _ he => he
  | discarded hd hf => exact h.sublist fun e he => hf.mem_iff.mpr (List.mem_cons_of_mem _ he)
  | lost hf => exact h.sublist fun e he => hf.mem he

/-- No message that arrives reports a peer as dead, so each is answered. -/
lemma Sane.receive (h : Sane ids w) {m : ProtocolMessage T} (hp : p ∈ ids)
    (hm : (p, m) ∈ w.flight) (hs : protocol.receive (w.node p) m = .ok n) :
    Node.Evolves (fun _ => False) (w.node p) n ∧ n.Settled m := by
  obtain ⟨he, hset⟩ := (Node.handleProtocolMessage_spec (h.wellFormed p hp) m).of_ok hs
  refine ⟨he.mono ?_, hset⟩
  intro x hx
  cases m with
  | disconnect y =>
    have ha := h.alive p y (.inl hm)
    simp [Operation.silent, ha] at hx
  | _ => exact hx

omit [Rng R] [DecidableEq T] in
lemma pending_lose {i : ℕ} {d : T} {m : ProtocolMessage T} (hi : w.flight[i]? ≠ some (d, m))
    (h : Pending ids w d m) : Pending ids { w with flight := w.flight.eraseIdx i } d m := by
  refine h.imp_left fun h => ?_
  obtain ⟨j, hj⟩ := List.mem_iff_getElem?.mp h
  refine List.mem_eraseIdx_iff_getElem?.mpr ⟨j, ?_, hj⟩
  rintro rfl
  exact hi hj

lemma Mending.step {w' : Cluster T R} {mv : Move T (Operation T)} {a b : T}
    (h : Mending ids w a b) (hw : Sane ids w) (hs : Network.step protocol ids w mv = .ok w')
    (hmv : Spares w a b mv) (ha : a ∈ ids) (hb : b ∈ ids) : Mending ids w' a b := by
  cases Network.change_of_step hs with
  | idle => exact h
  | called hp hc =>
    have he := (Node.perform_spec (hw.wellFormed _ hp) _).of_ok hc
    exact h.act hw hp he hmv (fun _ _ _ hm => .inl hm) ha hb
  | polled hp hc =>
    exact h.of_pending (view_poll hc) (fun d _ m _ => (pending_poll_iff hp hc).mpr) ha hb
  | @delivered i d m s rest hd hf hc =>
    obtain ⟨he, hset⟩ := hw.receive hd (hf.mem_iff.mpr List.mem_cons_self) hc
    refine h.act hw hd he (fun _ => id) ?_ ha hb
    intro d' _ m' hm
    rcases List.mem_cons.mp (hf.mem_iff.mp hm) with he | hm
    · cases he
      exact .inr ⟨rfl, hset⟩
    · exact .inl hm
  | duplicated hd hm hc =>
    exact h.act hw hd (hw.receive hd hm hc).1 (fun _ => id) (fun _ _ _ hm => .inl hm) ha hb
  | discarded hd hf =>
    exact h.of_pending (fun _ => rfl) (fun d' hd' m' _ => pending_discard hd hf hd') ha hb
  | lost =>
    cases hs
    refine h.of_pending (fun _ => rfl) (fun d _ m hm hp => ?_) ha hb
    exact pending_lose (fun hi => hmv d m hi hm) hp

lemma Mended.step {w' : Cluster T R} {mv : Move T (Operation T)} (h : Mended ids w)
    (hs : Network.step protocol ids w mv = .ok w') (hmv : Lossless mv) : Mended ids w' :=
  ⟨h.toSane.step hs, fun p hp q hq =>
    (h.mended p hp q hq).step h.toSane hs (spares_of_lossless hmv p q) hp hq⟩

omit [Rng R] [DecidableEq T] in
lemma fresh_mended {options : T → NodeOptions} {rng : T → R}
    (hopt : ∀ p ∈ ids, 1 ≤ (options p).maxActiveViewSize.toNat ∧
      1 ≤ (options p).maxPassiveViewSize.toNat) : Mended ids (fresh options rng) where
  wellFormed p hp := Node.withOptions_wellFormed p (rng p) (hopt p hp).1 (hopt p hp).2
  id_eq p _ := rfl
  alive d m hm := by simp [Pending, fresh, Node.withOptions] at hm
  mended p hp q hq hpq := by simp [fresh, Node.withOptions] at hpq

/-- At rest, two members have each other in their active views or neither has the other. -/
theorem active_views_symmetric {options : T → NodeOptions} {rng : T → R}
    {tr : List (Taken (Cluster T R) (Move T (Operation T)))}
    (hopt : ∀ p ∈ ids, 1 ≤ (options p).maxActiveViewSize.toNat ∧
      1 ≤ (options p).maxPassiveViewSize.toNat)
    (h : Run (Network.step protocol ids) (fresh options rng) tr w)
    (hmoves : ∀ e ∈ tr, Lossless e.input) (hflight : w.flight = [])
    (hqueues : ∀ p ∈ ids, (w.node p).actions = []) {p q : T} (hp : p ∈ ids) (hq : q ∈ ids) :
    p ∈ (w.node q).activeView ↔ q ∈ (w.node p).activeView := by
  have hw : Mended ids w := h.invariant_of (P := Mended ids) (C := fun e => Lossless e.input)
    (fun _ _ _ hm hs hc => hm.step hs hc) (fresh_mended hopt) hmoves
  have hnone : ∀ d m, ¬ Pending ids w d m := by
    rintro d m (hm | ⟨r, hr, hm⟩)
    · simp [hflight] at hm
    · simp [hqueues r hr] at hm
  have hone : ∀ a ∈ ids, ∀ b ∈ ids, b ∈ (w.node a).activeView → a ∈ (w.node b).activeView := by
    intro a ha b hb hab
    by_contra hba
    rcases hw.mended a ha b hb hab hba with ⟨x, hx⟩ | hx
    · exact hnone _ _ hx
    · exact hnone _ _ hx
  exact ⟨hone q hq p hp, hone p hp q hq⟩

/-- Node 1 joins the cluster of node 0, and every message is delivered. -/
def joining : List (Move ℕ (Operation ℕ)) :=
  [.call 1 (.join 0), .poll 1, .deliver 0, .poll 0, .poll 0, .deliver 0, .poll 1, .poll 1,
    .deliver 0]

theorem active_views_symmetric_joining :
    ∃ (tr : List (Taken (Cluster ℕ Playback) (Move ℕ (Operation ℕ)))) (w : Cluster ℕ Playback),
      Run (Network.step protocol {0, 1}) (fresh (fun _ => {}) (fun _ => ⟨[]⟩)) tr w ∧
        1 ∈ (w.node 0).activeView ∧ (1 ∈ (w.node 0).activeView ↔ 0 ∈ (w.node 1).activeView) := by
  have hrun : follow (Network.step protocol {0, 1})
      (fresh (fun _ => {}) (fun _ => (⟨[]⟩ : Playback))) joining = .ok _ := rfl
  refine ⟨_, _, Run.of_follow joining hrun, by decide, ?_⟩
  refine active_views_symmetric (fun _ _ => by decide) (Run.of_follow joining hrun)
    (Run.inputs_of_follow joining hrun ?_) rfl ?_ (by decide) (by decide)
  · simp [joining, Lossless, Operation.Ordinary]
  · decide

end Cluster

end QuicP2p.Hyparview
