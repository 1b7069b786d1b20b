import QuicP2p.Hyparview.Passive
import QuicP2p.P2p.Neighbours

/-! What a received message comes to, once both action queues are drained: no message crashes a
node, but those of a Plumtree stream. -/

namespace QuicP2p.P2p

open Library
open Hyparview (replay)

variable {K A M R : Type} [DecidableEq K] [DecidableEq A] [Rng R]

namespace P2PNode

/-- Execute the actions of HyParView, as many as `passes` at most. -/
def drainHyparview : ℕ → P2PNode K A M R → Exec (P2PNode K A M R)
  | 0, n => .ok n
  | passes + 1, n =>
    match n.hyparviewNode.pollAction with
    | (some action, hyparviewNode) => do
      let n ← { n with hyparviewNode := hyparviewNode }.handleHyparviewAction action
      drainHyparview passes n
    | (none, _) => .ok n

/-- Execute the actions of Plumtree, one for each two readings of the clock. -/
def drainPlumtree : List (WallClock × WallClock) → P2PNode K A M R → Exec (P2PNode K A M R)
  | [], n => .ok n
  | (receive, now) :: clock, n => do
    let (action, plumtreeNode) ← n.plumtreeNode.pollAction
    let n := { n with plumtreeNode := plumtreeNode }
    match action with
    | some action => do
      let (_, n) ← n.handlePlumtreeAction receive now action
      drainPlumtree clock n
    | none => .ok n

/-- Handle a message, then drain the two queues. -/
def takeIn (n : P2PNode K A M R) (message : P2pNodeProtocolMessage K A M) (passes : ℕ)
    (clock : List (WallClock × WallClock)) : Exec (P2PNode K A M R) := do
  let (_, n) ← n.handleP2pnodeProtocolMessage message
  let n ← n.drainHyparview passes
  n.drainPlumtree clock

/-- No pass of the drains panics, and enough passes empty the queues. -/
structure Survives (n : P2PNode K A M R) (message : P2pNodeProtocolMessage K A M) : Prop where
  returns : ∀ passes clock, ∃ m, n.takeIn message passes clock = .ok m
  ends : ∃ bound, ∀ passes, bound ≤ passes → ∃ bound', ∀ clock, bound' ≤ clock.length →
    ∃ m, n.takeIn message passes clock = .ok m ∧ m.hyparviewNode.actions = [] ∧
      m.plumtreeNode.actions = []

/-- What is left to do for the drain of HyParView: an action that takes a neighbour away queues
three more at most. -/
def work (hv : HyparviewNode K A R) : ℕ := 4 * hv.activeView.length + hv.actions.length

/-- What is left to do for the drain of Plumtree. -/
def toDo (p : PlumtreeNode K A M) : ℕ := p.missings.waiting.card + p.actions.length

variable {n m : P2PNode K A M R} {hv hv' : HyparviewNode K A R} {a : HyparviewAction K A}
  {rest : List (HyparviewAction K A)}

lemma reenter_work (h : hv.WellFormed) (ha : hv.actions = a :: rest)
    (hr : reenter { hv with actions := rest } a = .ok hv') : work hv' < work hv := by
  have hpop : work { hv with actions := rest } < work hv := by
    simp only [work, ha, List.length_cons]
    omega
  cases a with
  | disconnect x =>
    have hw : ({ hv with actions := rest } : HyparviewNode K A R).WellFormed :=
      h.congr rfl rfl (.refl _) (.refl _)
    by_cases hx : x ∈ hv.activeView
    · obtain ⟨v, q, g, k, hv, _, hk, rfl⟩ :=
        (Hyparview.Node.handleDisconnect_present hw hx false).of_ok hr
      refine lt_of_le_of_lt ?_ hpop
      have hlen := hv.length_eq
      cases hk with
      | idle =>
        simp_all [work, Hyparview.Node.departed, Hyparview.Node.departure]
        omega
      | asked =>
        simp_all [work, Hyparview.Node.departed, Hyparview.Node.departure, Hyparview.Node.send,
          Hyparview.Node.pushBack]
        omega
    · have he := (Hyparview.Node.disconnect_of_absent (n := { hv with actions := rest }) hx)
      cases he.symm.trans hr
      exact hpop
  | send d msg =>
    cases hr
    exact hpop
  | notify e =>
    cases hr
    exact hpop

lemma drainHyparview_cons (passes : ℕ) (ha : n.hyparviewNode.actions = a :: rest) :
    n.drainHyparview (passes + 1) = ({ n with
      hyparviewNode := { n.hyparviewNode with actions := rest } }.handleHyparviewAction a >>=
        drainHyparview passes) := by
  rw [drainHyparview]
  simp only [Hyparview.Node.pollAction, ha, List.head?_cons, List.tail_cons]

lemma drainHyparview_nil (passes : ℕ) (ha : n.hyparviewNode.actions = []) :
    n.drainHyparview passes = .ok n := by
  cases passes with
  | zero => rfl
  | succ passes =>
    rw [drainHyparview]
    simp only [Hyparview.Node.pollAction, ha, List.head?_nil]

lemma drainHyparview_coherent (h : n.Coherent) (passes : ℕ) :
    Yields (n.drainHyparview passes) Coherent := by
  induction passes generalizing n with
  | zero => exact .ok h
  | succ passes ih =>
    cases ha : n.hyparviewNode.actions with
    | nil => exact ⟨n, drainHyparview_nil _ ha, h⟩
    | cons a rest =>
      rw [drainHyparview_cons passes ha]
      exact (h.handleHyparviewAction ha).bind fun _ hm => ih hm

/-- The drain of HyParView ends, and more passes change nothing. -/
lemma drainHyparview_ends (h : n.Coherent) : ∃ m, m.hyparviewNode.actions = [] ∧ m.Coherent ∧
    ∀ passes, work n.hyparviewNode ≤ passes → n.drainHyparview passes = .ok m := by
  induction hw : work n.hyparviewNode using Nat.strong_induction_on generalizing n with
  | _ k ih =>
    subst hw
    cases ha : n.hyparviewNode.actions with
    | nil => exact ⟨n, ha, h, fun passes _ => drainHyparview_nil passes ha⟩
    | cons a rest =>
      obtain ⟨n', hn, hc⟩ := h.handleHyparviewAction ha
      have hless := reenter_work h.wellFormed ha (handleHyparviewAction_ok hn).1
      obtain ⟨m, hm, hmc, hall⟩ := ih _ hless hc rfl
      refine ⟨m, hm, hmc, fun passes hp => ?_⟩
      obtain ⟨passes, rfl⟩ : ∃ k, passes = k + 1 := ⟨passes - 1, by omega⟩
      rw [drainHyparview_cons passes ha, hn, ok_bind]
      exact hall passes (by omega)

/-- A poll that finds an action leaves less to do. -/
lemma pollAction_toDo {p : PlumtreeNode K A M} (h : p.missings.Valid) :
    Yields p.pollAction (fun r => (∀ a, r.1 = some a → toDo r.2 < toDo p) ∧
      (r.1 = none → r.2.actions = [])) := by
  refine (Plumtree.Node.handleExpiration_spec h).bind ?_
  rintro m ⟨⟨spent, hm, _⟩, _⟩
  have hgrafts : (p.grafts spent).length ≤ spent.length := by
    rw [Plumtree.Node.grafts, List.length_map]
    exact List.length_filter_le _ _
  have hwaiting : p.missings.waiting.card = spent.length + m.missings.waiting.card := by
    rw [hm.waiting_eq, Multiset.card_add, Multiset.coe_card]
  have hactions : m.actions.length = p.actions.length + (p.grafts spent).length := by
    rw [hm.actions_eq, List.length_append]
  refine .ok ⟨fun a ha => ?_, fun hnone => ?_⟩
  · obtain ⟨as, has⟩ := List.head?_eq_some_iff.mp ha
    simp only [toDo, has, List.tail_cons, List.length_cons] at hactions ⊢
    omega
  · rw [List.head?_eq_none_iff.mp hnone, List.tail_nil]

omit [Rng R] in
/-- The drain of Plumtree sends messages of Plumtree only. -/
lemma drainPlumtree_spec (h : n.Coherent) (clock : List (WallClock × WallClock)) :
    Yields (n.drainPlumtree clock) (fun m => m.Coherent ∧ m.hyparviewNode = n.hyparviewNode ∧
      (toDo n.plumtreeNode ≤ clock.length → m.plumtreeNode.actions = []) ∧
      ∃ calls, m.server = n.server ++ calls ∧
        ∀ c ∈ calls, ∃ d msg, c = .sendProtocolMessageSync d (.plumtree msg)) := by
  induction clock generalizing n with
  | nil =>
    refine .ok ⟨h, rfl, fun hle => ?_, [], (List.append_nil _).symm, by simp⟩
    have hlen : toDo n.plumtreeNode = 0 := Nat.le_zero.mp hle
    exact List.eq_nil_of_length_eq_zero (Nat.add_eq_zero_iff.mp hlen).2
  | cons c clock ih =>
    obtain ⟨receive, now⟩ := c
    obtain ⟨⟨action, p⟩, hpoll, hsome, hnone⟩ := pollAction_toDo h.valid
    have hc : ({ n with plumtreeNode := p } : P2PNode K A M R).Coherent := h.pollAction hpoll
    rw [drainPlumtree, hpoll, ok_bind]
    cases action with
    | none => exact .ok ⟨hc, rfl, fun _ => hnone rfl, [], (List.append_nil _).symm, by simp⟩
    | some a =>
      have hless := hsome a rfl
      have hstep : Yields (handlePlumtreeAction { n with plumtreeNode := p } receive now a)
          (fun r => r.2.Coherent ∧ r.2.hyparviewNode = n.hyparviewNode ∧ r.2.plumtreeNode = p ∧
            ∃ calls, r.2.server = n.server ++ calls ∧
              ∀ c ∈ calls, ∃ d msg, c = .sendProtocolMessageSync d (.plumtree msg)) := by
        cases a with
        | send d msg =>
          refine .ok ⟨hc.congr rfl rfl, rfl, rfl, [_], rfl, fun c hc => ⟨d, msg, ?_⟩⟩
          exact List.mem_singleton.mp hc
        | deliver m =>
          refine (Session.processSequentialMessages_spec _ now).mono ?_
          rintro r ⟨⟨b, q, hr⟩, _⟩
          rw [hr]
          exact ⟨hc.congr rfl rfl, rfl, rfl, [], (List.append_nil _).symm, by simp⟩
      refine hstep.bind ?_
      rintro ⟨_, k⟩ ⟨hkc, hk, hp, as, has, hplum⟩
      dsimp only at hkc hk hp has hless
      refine (ih hkc).mono ?_
      rintro m ⟨hmc, hm, hend, bs, hbs, hplum'⟩
      refine ⟨hmc, hm.trans hk, fun hle => hend ?_, as ++ bs, ?_, fun c hc => ?_⟩
      · rw [List.length_cons] at hle
        rw [hp]
        omega
      · rw [hbs, has, List.append_assoc]
      · exact (List.mem_append.mp hc).elim (hplum c) (hplum' c)

lemma takeIn_bind {message : P2pNodeProtocolMessage K A M} {stop : Bool}
    (h : n.handleP2pnodeProtocolMessage message = .ok (stop, m)) (passes : ℕ)
    (clock : List (WallClock × WallClock)) :
    n.takeIn message passes clock = (m.drainHyparview passes >>= drainPlumtree clock) := by
  rw [takeIn, h]
  rfl

lemma Coherent.survives {message : P2pNodeProtocolMessage K A M} {stop : Bool} (h : m.Coherent)
    (hm : n.handleP2pnodeProtocolMessage message = .ok (stop, m)) : n.Survives message where
  returns passes clock := by
    rw [takeIn_bind hm]
    obtain ⟨k, hk, hc⟩ := drainHyparview_coherent h passes
    rw [hk, ok_bind]
    exact (drainPlumtree_spec hc clock).returns
  ends := by
    obtain ⟨k, hk, hkc, hall⟩ := drainHyparview_ends h
    refine ⟨work m.hyparviewNode, fun passes hp => ⟨toDo k.plumtreeNode, fun clock hc => ?_⟩⟩
    obtain ⟨l, hl, _, hhv, hend, _⟩ := drainPlumtree_spec hkc clock
    refine ⟨l, ?_, hhv ▸ hk, hend hc⟩
    rw [takeIn_bind hm, hall passes hp, ok_bind, hl]

/-- A received message crashes a node exactly if it is one of a Plumtree stream. -/
theorem survives_iff {nodeId : NodeId K A} {rng : R} {draws : Draws} {choices : List ℕ}
    {s₀ s : Session K A M R} {tr : List (Taken (Session K A M R) (Input K A M))}
    (h₀ : Session.new nodeId rng draws choices = .ok s₀) (h : Run Session.step s₀ tr s)
    (message : P2pNodeProtocolMessage K A M) :
    s.node.Survives message ↔ ∀ stream, message ≠ .plumtreeStream stream := by
  have hc := (Session.agreeing_of_run h₀ h).coherent
  constructor
  · rintro hs stream rfl
    obtain ⟨m, hm⟩ := hs.returns 0 []
    cases hm
  · intro hne
    cases message with
    | hyparview msg =>
      obtain ⟨hv, hx⟩ :=
        (Hyparview.Node.handleProtocolMessage_spec hc.wellFormed msg).returns
      have hm : s.node.handleP2pnodeProtocolMessage (.hyparview msg) =
          .ok (true, { s.node with hyparviewNode := hv }) := by
        rw [handleP2pnodeProtocolMessage, hx]
        rfl
      exact (hc.handleP2pnodeProtocolMessage hm).survives hm
    | plumtree msg =>
      have hm : s.node.handleP2pnodeProtocolMessage (.plumtree msg) = .ok (false, { s.node with
          plumtreeNode := (s.node.plumtreeNode.handleProtocolMessage msg).2 }) := rfl
      exact (hc.handleP2pnodeProtocolMessage hm).survives hm
    | plumtreeStream stream => exact absurd rfl (hne stream)

theorem survives_iff_solo :
    Session.solo.node.Survives (.hyparview (.join ⟨⟨[], 1⟩⟩)) :=
  (survives_iff Session.new_solo .start (.hyparview (.join ⟨⟨[], 1⟩⟩))).mpr
    fun _ h => by cases h

/-- The first message of a Plumtree stream crashes a node that has just started. -/
theorem stream_crashes : Session.new ⟨[], 0⟩ ⟨[]⟩ ⟨0, 0, 0⟩ [] = .ok Session.solo ∧
    ∀ passes clock, Session.solo.node.takeIn (.plumtreeStream .begin) passes clock = .error .todo :=
  ⟨rfl, fun _ _ => rfl⟩

end P2PNode

end QuicP2p.P2p
