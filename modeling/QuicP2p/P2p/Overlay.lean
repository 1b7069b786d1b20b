import QuicP2p.P2p.History
import QuicP2p.P2p.Maintenance
import QuicP2p.Hyparview.Healing

/-! A network of peer-to-peer nodes is a network of HyParView nodes, so what HyParView promises of
its active views holds of the neighbours of the peer-to-peer nodes. -/

namespace QuicP2p.P2p

open Library

variable {K A M R : Type}

/-- HyParView itself reports nobody as dead: such a report comes from a connection that broke, or
from a node that leaves. -/
def genuine : HyparviewMessage K A → Bool
  | .disconnect m => m.alive
  | _ => true

def hyparviewMessage : P2pNodeProtocolMessage K A M → Option (HyparviewMessage K A)
  | .hyparview m => if genuine m then some m else none
  | _ => none

abbrev hyparviewHosting : Hosting (NodeId K A) (HyparviewNode K A R) (HyparviewMessage K A)
    (Session K A M R) (P2pNodeProtocolMessage K A M) :=
  hosting P2PNode.hyparviewNode hyparviewMessage

/-- The input brings no message of HyParView from elsewhere, other than a report. -/
def Input.Closed : Input K A M → Prop
  | .arrive m => hyparviewMessage m = none
  | _ => True

lemma eq_lost_of_not_genuine {m : HyparviewMessage K A} (h : genuine m = false) :
    ∃ x, m = .disconnect ⟨x, false⟩ := by
  cases m with
  | disconnect m =>
    obtain ⟨x, alive⟩ := m
    obtain rfl : alive = false := h
    exact ⟨x, rfl⟩
  | _ => cases h

lemma hyparviewMessage_eq_some {n : P2pNodeProtocolMessage K A M} {m : HyparviewMessage K A} :
    hyparviewMessage n = some m ↔ n = .hyparview m ∧ genuine m = true := by
  cases n with
  | hyparview m' =>
    simp only [hyparviewMessage, Option.ite_none_right_eq_some, Option.some.injEq,
      P2pNodeProtocolMessage.hyparview.injEq]
    constructor
    · rintro ⟨h, rfl⟩
      exact ⟨rfl, h⟩
    · rintro ⟨rfl, h⟩
      exact ⟨h, rfl⟩
  | _ => simp [hyparviewMessage]

lemma carriedBy_plumtree (id : NodeId K A) (a : PlumtreeAction K A M) :
    carriedBy hyparviewMessage id (plumtreeCall a) = [] := by
  cases a <;> rfl

lemma carriedBy_leave (id : NodeId K A) (peers : List (NodeId K A)) :
    carriedBy (M := M) hyparviewMessage id (peers.flatMap (fun peer =>
      [.sendProtocolMessage peer (.hyparview (.disconnect ⟨id, false⟩)),
        .notifySelfDisconnect peer])) = [] := by
  rw [carriedBy, List.filterMap_eq_nil_iff]
  rintro ⟨d, m⟩ hm
  obtain ⟨c, hc, hm⟩ := List.mem_filterMap.mp hm
  obtain ⟨x, _, hc⟩ := List.mem_flatMap.mp hc
  rcases List.mem_cons.mp hc with rfl | hc
  · cases hm
    rfl
  · obtain rfl := List.mem_singleton.mp hc
    cases hm
    rfl

variable [DecidableEq K] [DecidableEq A] [Rng R]

/-- The node queues none but messages of HyParView itself. -/
def Earnest (hv : HyparviewNode K A R) : Prop := ∀ d m, .send d m ∈ hv.actions → genuine m = true

omit [DecidableEq K] [DecidableEq A] in
lemma genuine_of_alive {m : HyparviewMessage K A} (h : ∀ x, m = .disconnect x → x.alive = true) :
    genuine m = true := by
  cases m with
  | disconnect x => exact h x rfl
  | _ => rfl

lemma Earnest.step {hv hv' : HyparviewNode K A R} {i : Hyparview.Node.Input (NodeId K A)}
    (h : Earnest hv) (hw : hv.WellFormed) (hs : hv.step i = .ok hv') : Earnest hv' := by
  cases i with
  | call op =>
    obtain ⟨_, as, he⟩ := (Hyparview.Node.perform_spec hw op).of_ok hs
    intro d m hm
    rw [he.actions_eq] at hm
    rcases List.mem_append.mp hm with hm | hm
    · exact h d m hm
    · apply genuine_of_alive
      rintro x rfl
      exact he.alive d x hm
  | pollAction =>
    cases hs
    exact fun d m hm => h d m (List.mem_of_mem_tail hm)

lemma earnest_of_within {p : NodeId K A} {rng : R} {hv : HyparviewNode K A R}
    (h : Session.Within (Hyparview.Node.withOptions p rng {}) hv) : Earnest hv := by
  obtain ⟨tr, hr⟩ := h
  have hboth : hv.WellFormed ∧ Earnest hv := by
    apply hr.invariant (P := fun hv => hv.WellFormed ∧ Earnest hv)
    · rintro hv i hv' ⟨hw, h⟩ hs
      exact ⟨((Hyparview.Node.step_spec hw i).of_ok hs).1, h.step hw hs⟩
    · refine ⟨Hyparview.Node.withOptions_wellFormed p rng (by decide) (by decide), fun d m hm => ?_⟩
      simp [Hyparview.Node.withOptions] at hm
  exact hboth.2

omit [DecidableEq K] [DecidableEq A] [Rng R] in
lemma carriedBy_hyparview {hv : HyparviewNode K A R} (h : Earnest hv) (id : NodeId K A)
    {a : HyparviewAction K A} (ha : a ∈ hv.actions) :
    carriedBy (M := M) hyparviewMessage id (P2PNode.callOf a) =
      (Hyparview.Action.outgoing a).toList := by
  cases a with
  | send d m => simp [carriedBy, P2PNode.callOf, ServerCall.mail, hyparviewMessage, h d m ha,
      Hyparview.Action.outgoing]
  | _ => rfl

/-- What the node does to HyParView: it makes the calls of an ordinary node, and hands it the
reports it has received. -/
structure HyparviewDid (s : Session K A M R) (i : Input K A M) (deed : Deed (NodeId K A)
    (HyparviewMessage K A) (Hyparview.Operation (NodeId K A))) : Prop where
  ordinary : ∀ cs, deed = .call cs → ∀ op ∈ cs, op.Ordinary ∨
    ∃ x, op = .handleProtocolMessage (.disconnect ⟨x, false⟩) ∧ s.taken i = some (P2PNode.lost x)
  announced : s.Runs .syncActiveView i → ∃ cs, deed = .call cs ∧ .syncActiveView ∈ cs
  received : ∀ m, deed = .receive m → s.taken i = some (.hyparview m)

/-- The step is a deed to HyParView, and the account of its messages is kept. -/
def ServesHyparview (p : NodeId K A) (s : Session K A M R) (i : Input K A M)
    (t : Session K A M R) : Prop :=
  ∃ deed, HyparviewDid s i deed ∧
    deed.Does Hyparview.protocol s.node.hyparviewNode t.node.hyparviewNode ∧
    deed.taken p + hyparviewHosting.stored t = hyparviewHosting.stored s + deed.given

namespace ServesHyparview

variable {s t : Session K A M R} {i : Input K A M} {p : NodeId K A} {n : P2PNode K A M R}

lemma nothing (ha : ¬ s.Runs .syncActiveView i) (hh : t.node.hyparviewNode = s.node.hyparviewNode)
    (hstored : hyparviewHosting.stored t = hyparviewHosting.stored s) :
    ServesHyparview p s i t := by
  refine ⟨.call [], ⟨?_, fun h => absurd h ha, by simp⟩, ?_, ?_⟩
  · intro cs hcs op hop
    cases hcs
    simp at hop
  · rw [hh]
    rfl
  · rw [hstored]
    exact add_comm _ _

lemma left (h : s.node.leave.id = s.node.id) :
    ServesHyparview p s .leave { s with node := s.node.leave } := by
  refine nothing id (by rw [P2PNode.leave_eq]) ?_
  rw [stored_calls _ _ (t := { s with node := s.node.leave }) h (by rw [P2PNode.leave_eq])
    (by rw [P2PNode.leave_eq]), carriedBy_leave]
  exact add_zero _

omit [DecidableEq K] [DecidableEq A] in
lemma ordinary_operation (task : Task) : (task.operation (NodeId K A)).Ordinary := by
  cases task <;> trivial

lemma ticked {draws : Draws} (h : s.node.handleTick draws = .ok n) :
    ServesHyparview p s (.poll (some draws)) { s with node := n, stage := .hyparview false } := by
  have hcalls := P2PNode.handleTick_calls h
  obtain ⟨_, _, _, _, _, _, _, _, _, rfl⟩ := P2PNode.handleTick_ok h
  refine ⟨.call (s.node.dueTasks.map (Task.operation _)), ⟨?_, fun hruns => ⟨_, rfl, ?_⟩, by simp⟩,
    hcalls, add_comm _ _⟩
  · intro cs hcs op hop
    cases hcs
    obtain ⟨task, _, rfl⟩ := List.mem_map.mp hop
    exact .inl (ordinary_operation task)
  · exact List.mem_map.mpr ⟨.syncActiveView, P2PNode.mem_dueTasks.mpr hruns.2, rfl⟩

/-- The next action of HyParView is executed: a message goes to the server. -/
lemma acted {b : Bool} {receive now : WallClock} {a : HyparviewAction K A}
    {rest : List (HyparviewAction K A)} (h : Steady p s) (hid : n.id = s.node.id)
    (ha : s.node.hyparviewNode.actions = a :: rest)
    (hn : { s.node with hyparviewNode := { s.node.hyparviewNode with actions := rest }
      }.handleHyparviewAction a = .ok n) :
    ServesHyparview p s (.advance receive now) { s with node := n, stage := .hyparview b } := by
  obtain ⟨rng, hw⟩ := h.within
  have hpopped := h.agreeing.popped ha hn
  have hrx := (P2PNode.handleHyparviewAction_kept hn).1
  refine ⟨.poll (Hyparview.Action.outgoing a), ⟨by simp, False.elim, by simp⟩, ?_, ?_⟩
  · change Hyparview.protocol.poll s.node.hyparviewNode = .ok (_, n.hyparviewNode)
    simp only [hpopped, Hyparview.protocol, Hyparview.Node.pollAction, ha]
    rfl
  · rw [stored_calls _ _ hid (P2PNode.handleHyparviewAction_ok hn).2 hrx,
      carriedBy_hyparview (earnest_of_within hw) _ (by rw [ha]; exact List.mem_cons_self)]
    exact zero_add _

/-- A message that was received is handled: HyParView gets it from its network, unless it is a
report. -/
lemma received {b stop : Bool} {receive now : WallClock} {m : P2pNodeProtocolMessage K A M}
    {rest : List (P2pNodeProtocolMessage K A M)} (h : Steady p s) (hid : n.id = s.node.id)
    (hstage : s.stage = .receive b) (hm : s.node.messageRx = m :: rest)
    (hn : { s.node with messageRx := rest }.handleP2pnodeProtocolMessage m = .ok (stop, n)) :
    ServesHyparview p s (.advance receive now)
      { s with node := n, stage := if stop then .hyparview false else .receive true } := by
  have htaken : s.taken (.advance receive now) = some m := by simp [Session.taken, hstage, hm]
  cases m with
  | hyparview m =>
    obtain ⟨hv, hx, hn⟩ := bind_eq_ok.mp hn
    cases hn
    have hstored := stored_taken P2PNode.hyparviewNode hyparviewMessage
      (t := { s with
        node := { s.node with messageRx := rest, hyparviewNode := hv }
        stage := .hyparview false }) hm hid rfl rfl
    cases hgenuine : genuine m with
    | true =>
      refine ⟨.receive m, ⟨by simp, False.elim, ?_⟩, hx, ?_⟩
      · rintro _ ⟨⟩
        exact htaken
      · rw [← hstored, h.id_eq, hyparviewMessage, if_pos hgenuine]
        exact (add_zero _).symm
    | false =>
      obtain ⟨x, rfl⟩ := eq_lost_of_not_genuine hgenuine
      refine ⟨.call [.handleProtocolMessage (.disconnect ⟨x, false⟩)], ⟨?_, False.elim, by simp⟩,
        ?_, ?_⟩
      · intro cs hcs op hop
        cases hcs
        exact .inr ⟨x, List.mem_singleton.mp hop, htaken⟩
      · change [_].foldlM Hyparview.Node.perform s.node.hyparviewNode = _
        simp only [List.foldlM_cons, List.foldlM_nil, bind_pure]
        exact hx
      · rw [← hstored]
        exact (add_zero _).symm
  | plumtree m =>
    cases hn
    refine nothing id rfl ?_
    have hstored := stored_taken P2PNode.hyparviewNode hyparviewMessage
      (t := { s with
        node := { s.node with
          messageRx := rest
          plumtreeNode := (s.node.plumtreeNode.handleProtocolMessage m).2 }
        stage := .receive true }) hm hid rfl rfl
    exact (zero_add _).symm.trans hstored
  | plumtreeStream m => cases hn

/-- The step lemma: each step of a session serves HyParView. -/
lemma of_step (h : Steady p s) (hok : i.Closed) (hs : s.step i = .ok t) :
    ServesHyparview p s i t := by
  have hid : t.node.id = s.node.id := (h.step hs).id_eq.trans h.id_eq.symm
  cases Session.stepped_of_step hs with
  | refused =>
    by_cases ha : s.Runs .syncActiveView i
    · cases i with
      | poll tick =>
        cases tick with
        | none => exact ha.elim
        | some draws =>
          simp only [Session.step, if_pos ha.1] at hs
          obtain ⟨n, hn, hs⟩ := bind_eq_ok.mp hs
          have hserves := ticked (p := p) hn
          rwa [Except.ok.inj hs] at hserves
      | _ => exact ha.elim
    · exact nothing ha rfl rfl
  | @joined c =>
    refine ⟨.call [.join c], ⟨?_, False.elim, by simp⟩, rfl, add_comm _ _⟩
    intro cs hcs op hop
    cases hcs
    rw [List.mem_singleton.mp hop]
    exact .inl trivial
  | broadcast _ hb =>
    obtain ⟨_, _, _, rfl⟩ := P2PNode.broadcast_ok hb
    exact nothing id rfl (stored_congr _ _ hid rfl rfl)
  | left => exact left hid
  | @arrived m =>
    refine nothing id rfl ?_
    have hnone : hyparviewMessage m = none := hok
    rw [stored_arrive, hnone]
    exact add_zero _
  | polled => exact nothing id rfl rfl
  | ticked _ ht => exact ticked ht
  | acted _ ha hn => exact acted h hid ha hn
  | drained => exact nothing id rfl rfl
  | @searched b receive now r _ hr =>
    obtain ⟨⟨_, _, hr⟩, _⟩ := (Session.processSequentialMessages_spec _ _).of_ok hr
    have hnode : (s.found (.plumtree b) r).node = r.2 := Session.node_found
    refine nothing id (by rw [hnode, hr]) (stored_congr _ _ hid ?_ ?_)
    · rw [hnode, hr]
    · rw [hnode, hr]
  | @executed b receive now a q r _ _ hr =>
    obtain ⟨hh, _, hserver, hrx, _⟩ := P2PNode.handlePlumtreeAction_ok hr
    have hnode : ({ s.found (.plumtree true) r with
        delivered := s.delivered ++ Session.deliverOf receive a } : Session K A M R).node = r.2 :=
      Session.node_found
    refine nothing id (by rw [hnode, hh]) ?_
    rw [stored_calls _ _ hid (by rw [hnode, hserver]) (by rw [hnode, hrx]), carriedBy_plumtree]
    exact add_zero _
  | exhausted => exact nothing id rfl (stored_congr _ _ hid rfl rfl)
  | received hstage hm hn => exact received h hid hstage hm hn
  | ended => exact nothing id rfl rfl
  | reordered => exact nothing id rfl (stored_congr _ _ hid rfl rfl)

end ServesHyparview

lemma hyparview_hosts : (hyparviewHosting (K := K) (A := A) (M := M) (R := R)).Hosts
    Hyparview.protocol Cluster.protocol Steady Input.Closed
    (fun s i deed _ => HyparviewDid s i deed) where
  poll := by
    intro p s out t hs hpost
    have hpost : s.post = (out, t) := Except.ok.inj hpost
    have hkept := s.post_spec.hyparview_eq
    have hstored := stored_post P2PNode.hyparviewNode hyparviewMessage s
    rw [hpost] at hkept hstored
    exact ⟨hkept, hstored⟩
  receive := by
    intro p s m t hs hm
    cases hm
    rw [← hs.id_eq]
    exact ⟨rfl, stored_arrive _ _ s m⟩
  call := by
    intro p s i t hs hok hc
    exact ServesHyparview.of_step hs hok hc

namespace Cluster

variable {ids : Finset (NodeId K A)} {w w₀ w' : Cluster K A M R} {rng : NodeId K A → R}
  {draws : NodeId K A → Draws} {choices : NodeId K A → List ℕ} {a b p d : NodeId K A}
  {mv : Move (NodeId K A) (Input K A M)} {v v' : Hyparview.Cluster (NodeId K A) R}
  {tr tr₀ : List (Taken (Cluster K A M R) (Move (NodeId K A) (Input K A M)))}
  {add tr' : List (Taken (Hyparview.Cluster (NodeId K A) R)
    (Move (NodeId K A) (Hyparview.Operation (NodeId K A))))}

abbrev Shadowed (ids : Finset (NodeId K A)) (w w' : Cluster K A M R) :=
  (hyparviewHosting (K := K) (A := A) (M := M) (R := R)).Shadows ids
    (fun s i deed _ => HyparviewDid s i deed) w w'

/-- The node handles the report that it has lost `x`. -/
def Reported (p x : NodeId K A) (e : Taken (Cluster K A M R) (Move (NodeId K A) (Input K A M))) :
    Prop :=
  ∃ i, e.input = .call p i ∧ (e.before.node p).taken i = some (P2PNode.lost x)

/-- The node announces itself to its active view. -/
def Announced (tr : List (Taken (Cluster K A M R) (Move (NodeId K A) (Input K A M))))
    (p : NodeId K A) : Prop :=
  ∃ e ∈ tr, ∃ i, e.input = .call p i ∧ (e.before.node p).Runs .syncActiveView i

omit [Rng R] in
lemma mem_waiting_hyparview {m : HyparviewMessage K A} :
    (d, m) ∈ hyparviewHosting.waiting ids w ↔ genuine m = true ∧
      ((d, .hyparview m) ∈ w.flight ∨ ∃ p ∈ ids, (d, .hyparview m) ∈ (w.node p).held) := by
  rw [mem_waiting_hosting]
  simp only [hyparviewMessage_eq_some]
  constructor
  · rintro ⟨_, ⟨rfl, hg⟩, hn⟩
    exact ⟨hg, hn⟩
  · rintro ⟨hg, hn⟩
    exact ⟨_, ⟨rfl, hg⟩, hn⟩

/-- The node takes a message from its receive queue. -/
def Received (p : NodeId K A) (m : HyparviewMessage K A)
    (e : Taken (Cluster K A M R) (Move (NodeId K A) (Input K A M))) : Prop :=
  ∃ i, e.input = .call p i ∧ (e.before.node p).taken i = some (.hyparview m)

/-- A message to a node is lost on its way. -/
def Lost (d : NodeId K A) (m : HyparviewMessage K A)
    (e : Taken (Cluster K A M R) (Move (NodeId K A) (Input K A M))) : Prop :=
  ∃ i, e.input = .lose i ∧ e.before.flight[i]? = some (d, .hyparview m)

/-- Where a step of the HyParView nodes comes from: they make the calls of ordinary nodes and hear
what the peer-to-peer nodes were told of, they receive a message, for the first time or once more,
when its node takes it, and lose one when it gets lost. -/
structure Accounted (ids : Finset (NodeId K A))
    (tr : List (Taken (Cluster K A M R) (Move (NodeId K A) (Input K A M))))
    (e : Taken (Hyparview.Cluster (NodeId K A) R)
      (Move (NodeId K A) (Hyparview.Operation (NodeId K A)))) : Prop where
  call : ∀ p op, e.input = .call p op → op.Ordinary ∨
    ∃ x, op = .handleProtocolMessage (.disconnect ⟨x, false⟩) ∧ ∃ h ∈ tr, Reported p x h
  receive : ∀ d ∈ ids, ∀ m, Network.Arrival e.before e.input d m → ∃ h ∈ tr, Received d m h
  lose : ∀ j, e.input = .lose j →
    ∃ d m, e.before.flight[j]? = some (d, m) ∧ ∃ h ∈ tr, Lost d m h

omit [DecidableEq K] [DecidableEq A] [Rng R] in
lemma Accounted.mono {e : Taken (Hyparview.Cluster (NodeId K A) R)
      (Move (NodeId K A) (Hyparview.Operation (NodeId K A)))}
    (h : Accounted ids tr₀ e) (hsub : ∀ e ∈ tr₀, e ∈ tr) : Accounted ids tr e where
  call p op hi := by
    refine (h.call p op hi).imp_right ?_
    rintro ⟨x, hop, e, he, hx⟩
    exact ⟨x, hop, e, hsub e he, hx⟩
  receive d hd m hm := by
    obtain ⟨e, he, hx⟩ := h.receive d hd m hm
    exact ⟨e, hsub e he, hx⟩
  lose j hj := by
    obtain ⟨d, m, hflight, e, he, hx⟩ := h.lose j hj
    exact ⟨d, m, hflight, e, hsub e he, hx⟩

omit [DecidableEq K] [DecidableEq A] [Rng R] in
lemma accounted_of_shadowed (h : Shadowed ids w w' v v' mv add) :
    ∀ e ∈ add, Accounted ids [⟨w, mv, w'⟩] e := by
  intro e he
  cases h with
  | @acted p i deed tr hp hd ht hn =>
    cases deed with
    | call cs =>
      have hinput : e.input ∈ cs.map (Move.call p) := by
        rw [← ht]
        exact List.mem_map_of_mem he
      obtain ⟨op, hop, hcall⟩ := List.mem_map.mp hinput
      refine ⟨fun p' op' hi => ?_, ?_, fun j hj => ?_⟩
      · obtain ⟨rfl, rfl⟩ := Move.call.inj (hcall.trans hi)
        refine (hd.ordinary cs rfl op hop).imp_right ?_
        rintro ⟨x, hx, htaken⟩
        exact ⟨x, hx, _, List.mem_singleton_self _, i, rfl, htaken⟩
      · rintro d _ m ⟨j, hj | hj, _⟩
        · cases hcall.trans hj
        · cases hcall.trans hj
      · cases hcall.trans hj
    | poll out =>
      rw [ht] at he
      rw [List.mem_singleton.mp he]
      refine ⟨by simp, ?_, by simp⟩
      rintro d _ m ⟨j, hj | hj, _⟩
      · cases hj
      · cases hj
    | receive m =>
      obtain ⟨mv', rfl, i', hi', hflight⟩ := ht
      rw [List.mem_singleton.mp he]
      refine ⟨fun _ _ hi => ?_, ?_, fun _ hi => ?_⟩
      · rcases hi' with rfl | rfl
        · cases hi
        · cases hi
      · rintro d _ m' ⟨j, hj, hm'⟩
        have hsame : j = i' := by
          rcases hi' with rfl | rfl
          · rcases hj with hj | hj <;> cases hj
            rfl
          · rcases hj with hj | hj <;> cases hj
            rfl
        subst hsame
        cases hflight.symm.trans hm'
        exact ⟨_, List.mem_singleton_self _, i, rfl, hd.received m rfl⟩
      · rcases hi' with rfl | rfl
        · cases hi
        · cases hi
  | idle => cases he
  | @discarded mv j d m hmv hd hflight =>
    rw [List.mem_singleton.mp he]
    refine ⟨by simp, ?_, by simp⟩
    rintro d' hd' m' ⟨j', hj | hj, hm'⟩
    · cases hj
      cases hflight.symm.trans hm'
      exact absurd hd' hd
    · cases hj
  | @lost i j d n m hi hn hj =>
    obtain ⟨rfl, _⟩ := hyparviewMessage_eq_some.mp hn
    rw [List.mem_singleton.mp he]
    refine ⟨by simp, ?_, fun j' hj' => ?_⟩
    · rintro d' _ m' ⟨_, h | h, _⟩
      · cases h
      · cases h
    · cases hj'
      exact ⟨d, m, hj, _, List.mem_singleton_self _, i, rfl, hi⟩

omit [Rng R] in
lemma hosted_of_new
    (h₀ : ∀ p ∈ ids, Session.new p (rng p) (draws p) (choices p) = .ok (w₀.node p))
    (hf₀ : w₀.flight = []) :
    hyparviewHosting.Hosted ids w₀ (Hyparview.fresh (fun _ => {}) rng) := by
  have hnew : ∀ p ∈ ids, (w₀.node p).node.hyparviewNode = .withOptions p (rng p) {} ∧
      (w₀.node p).held = [] := by
    intro p hp
    obtain ⟨_, _, _, hs⟩ := Session.new_ok (h₀ p hp)
    rw [hs]
    exact ⟨rfl, rfl⟩
  have hnone : hyparviewHosting.waiting ids w₀ = 0 := by
    refine Multiset.eq_zero_of_forall_notMem ?_
    rintro ⟨d, m⟩ he
    rcases (mem_waiting_hyparview.mp he).2 with hm | ⟨p, hp, hm⟩
    · simp [hf₀] at hm
    · simp [(hnew p hp).2] at hm
  refine ⟨fun p hp => (hnew p hp).1.symm, ?_⟩
  rw [hnone]
  exact .refl _

/-- A network of peer-to-peer nodes is one of HyParView nodes: each run of it goes along with a run
of HyParView nodes, in which every node is as it is there and the messages on their way are the
same. Reports of lost nodes may come from outside, but no other message of HyParView may. -/
theorem hyparview_refined
    (h₀ : ∀ p ∈ ids, Session.new p (rng p) (draws p) (choices p) = .ok (w₀.node p))
    (hf₀ : w₀.flight = []) (h : Run (Network.step protocol ids) w₀ tr w)
    (hclosed : ∀ e ∈ tr, ∀ p i, e.input = .call p i → i.Closed) :
    ∃ tr' v, Run (Network.step Hyparview.protocol ids) (Hyparview.fresh (fun _ => {}) rng) tr' v ∧
      (∀ p ∈ ids, v.node p = (w.node p).node.hyparviewNode) ∧
      (∀ d m, (d, m) ∈ v.flight ↔ genuine m = true ∧
        ((d, .hyparview m) ∈ w.flight ∨ ∃ p ∈ ids, (d, .hyparview m) ∈ (w.node p).held)) ∧
      ∀ e ∈ tr', Accounted ids tr e := by
  have hstep : ∀ (tr : List (Taken (Cluster K A M R) (Move (NodeId K A) (Input K A M)))) w mv w'
      (tr' : List (Taken (Hyparview.Cluster (NodeId K A) R)
        (Move (NodeId K A) (Hyparview.Operation (NodeId K A))))) v v' add,
      (∀ e ∈ tr', Accounted ids tr e) → hyparviewHosting.Hosted ids w v →
      (∀ p ∈ ids, Steady p (w.node p)) → Network.step protocol ids w mv = .ok w' →
      Run (Network.step Hyparview.protocol ids) v add v' →
      Shadowed ids w w' v v' mv add →
      ∀ e ∈ tr' ++ add, Accounted ids (tr ++ [⟨w, mv, w'⟩]) e := by
    intro tr w mv w' tr' v v' add hmoves _ _ _ _ hshadow e he
    rcases List.mem_append.mp he with he | he
    · exact (hmoves e he).mono fun e he => List.mem_append_left _ he
    · exact (accounted_of_shadowed hshadow e he).mono fun e he => List.mem_append_right _ he
  obtain ⟨_, tr', v, hrun, hv, hmoves⟩ := Hosting.Hosted.run
    (Q := fun tr _ tr' _ => ∀ e ∈ tr', Accounted ids tr e) hyparview_hosts
    (fun _ _ _ hs ht => steady_of_step hs ht) hstep h hclosed (fun p hp => .new (h₀ p hp))
    (hosted_of_new h₀ hf₀) (by simp)
  exact ⟨tr', v, hrun, hv.node_eq, fun d m => (hv.mem_flight _).trans mem_waiting_hyparview,
    hmoves⟩

/-- Node 1 asks node 0 to let it in, and the message gets lost. -/
def unanswered : List (Move (NodeId ℕ ℕ) (Input ℕ ℕ ℕ)) :=
  .flatten [[.call (host 1) (.join (host 0)), .call (host 1) (.poll none)], stages 1 9,
    [.poll (host 1), .lose 0]]

/-- Node 1 asks again. -/
def answered : List (Move (NodeId ℕ ℕ) (Input ℕ ℕ ℕ)) :=
  .flatten [[.call (host 1) (.join (host 0)), .call (host 1) (.poll none)], stages 1 9,
    [.poll (host 1), .deliver 0, .call (host 0) (.poll none)], stages 0 14,
    [.poll (host 0), .deliver 0, .call (host 1) (.poll none)], stages 1 14,
    [.poll (host 1), .deliver 0, .call (host 0) (.poll none)], stages 0 14]

set_option maxRecDepth 4000 in
theorem hyparview_refined_answered : ∃ (w : Cluster ℕ ℕ ℕ Playback)
    (v : Hyparview.Cluster (NodeId ℕ ℕ) Playback)
    (tr : List (Taken (Cluster ℕ ℕ ℕ Playback) (Move (NodeId ℕ ℕ) (Input ℕ ℕ ℕ))))
    (tr' : List (Taken (Hyparview.Cluster (NodeId ℕ ℕ) Playback)
      (Move (NodeId ℕ ℕ) (Hyparview.Operation (NodeId ℕ ℕ))))),
      Run (Network.step protocol {host 0, host 1}) fresh tr w ∧
      Run (Network.step Hyparview.protocol {host 0, host 1})
        (Hyparview.fresh (fun _ => {}) (fun _ => ⟨[]⟩)) tr' v ∧
      (v.node (host 0)).activeView = [host 1] := by
  have hrun : follow (Network.step protocol {host 0, host 1}) fresh (unanswered ++ answered) =
    .ok _ := rfl
  have hmoves : ∀ mv ∈ unanswered ++ answered, ∀ p i, mv = .call p i → i.Closed := by
    rintro mv hmv p i rfl
    cases i with
    | arrive m => simp [unanswered, answered, stages] at hmv
    | _ => trivial
  obtain ⟨tr', v, hr, hnode, _⟩ := hyparview_refined (fun p _ => new_fresh p) rfl
    (Run.of_follow (unanswered ++ answered) hrun)
    (Run.inputs_of_follow (C := fun mv => ∀ p i, mv = .call p i → i.Closed) _ hrun hmoves)
  refine ⟨_, v, _, tr', Run.of_follow (unanswered ++ answered) hrun, hr, ?_⟩
  rw [hnode _ (by decide)]
  rfl

/-- The move loses no message between the two nodes, brings none from outside, and `b` does not
hear that it has lost `a`. -/
def Heeded (a b : NodeId K A) (e : Taken (Cluster K A M R) (Move (NodeId K A) (Input K A M))) :
    Prop :=
  Reliable a b e.before e.input ∧ ¬ Reported b a e

omit [DecidableEq K] [DecidableEq A] [Rng R] in
lemma closed_of_reliable {i : Input K A M} (h : Reliable a b w (.call p i)) : i.Closed := by
  cases i with
  | arrive m =>
    obtain ⟨x, rfl⟩ := h
    rfl
  | _ => trivial

omit [DecidableEq K] [DecidableEq A] [Rng R] in
lemma spares_of_shadowed (h : Shadowed ids w w' v v' mv add) (hmv : Heeded a b ⟨w, mv, w'⟩) :
    ∀ e ∈ add, Hyparview.Cluster.Spares e.before a b e.input := by
  intro e he
  have haccounted := accounted_of_shadowed h e he
  cases hi : e.input with
  | call p op =>
    rintro rfl hsilent
    rcases haccounted.call p op hi with hordinary | ⟨x, rfl, e', he', hreported⟩
    · exact Hyparview.silent_of_ordinary hordinary a hsilent
    · obtain rfl := List.mem_singleton.mp he'
      obtain ⟨_, rfl⟩ := hsilent
      exact hmv.2 hreported
  | lose j =>
    obtain ⟨d, m, hj, e', he', i, hlose, hflight⟩ := haccounted.lose j hi
    obtain rfl := List.mem_singleton.mp he'
    cases hlose
    intro d' m' hj' hbetween
    cases hj.symm.trans hj'
    obtain ⟨hba, hab⟩ := hmv.1 d _ hflight
    rcases hbetween with ⟨rfl, rfl⟩ | ⟨rfl, rfl⟩
    · exact hba ⟨rfl, rfl⟩
    · exact hab ⟨rfl, rfl⟩
  | _ => trivial

lemma sane_of_hosted (hs : ∀ p ∈ ids, Steady p (w.node p))
    (hv : hyparviewHosting.Hosted ids w v) : Hyparview.Cluster.Sane ids v where
  wellFormed p hp := by
    rw [hv.node_eq p hp]
    exact (hs p hp).agreeing.coherent.wellFormed
  id_eq p hp := by
    rw [hv.node_eq p hp]
    exact (hs p hp).agreeing.coherent.id_eq.symm.trans (hs p hp).id_eq
  alive d m hm := by
    rcases hm with hm | ⟨p, hp, hm⟩
    · exact (mem_waiting_hyparview.mp ((hv.mem_flight _).mp hm)).1
    · obtain ⟨rng, hw⟩ := (hs p hp).within
      rw [hv.node_eq p hp] at hm
      exact earnest_of_within hw d _ hm

omit [DecidableEq K] [DecidableEq A] [Rng R] in
lemma announced_of_shadowed (h : Shadowed ids w w' v v' mv add) (ha : a ∈ ids)
    (hsync : ∃ i, mv = .call a i ∧ (w.node a).Runs .syncActiveView i) :
    Hyparview.Cluster.Announced add a := by
  obtain ⟨i, rfl, hruns⟩ := hsync
  cases h with
  | acted hp hd ht =>
    obtain ⟨cs, rfl, hmem⟩ := hd.announced hruns
    have hinput : Move.call a .syncActiveView ∈ add.map Taken.input := by
      rw [ht]
      exact List.mem_map_of_mem hmem
    obtain ⟨e, he, hi⟩ := List.mem_map.mp hinput
    exact ⟨e, he, hi⟩
  | idle hidle => exact absurd ha (hidle a i rfl)
  | discarded hidle => exact absurd rfl (hidle a i)

/-- What a run keeps of the link from `a` to `b`, where `fresh` tells that there was none when it
began. -/
def Linking (ids : Finset (NodeId K A)) (fresh : Prop) (a b : NodeId K A)
    (tr : List (Taken (Cluster K A M R) (Move (NodeId K A) (Input K A M))))
    (v : Hyparview.Cluster (NodeId K A) R) : Prop :=
  (∀ e ∈ tr, Heeded a b e) → Hyparview.Cluster.Sane ids v ∧
    (fresh ∨ Announced tr a → Hyparview.Cluster.Mending ids v a b)

omit [DecidableEq K] [DecidableEq A] [Rng R] in
lemma announced_concat {e : Taken (Cluster K A M R) (Move (NodeId K A) (Input K A M))} :
    Announced (tr ++ [e]) a ↔ Announced tr a ∨
      ∃ i, e.input = .call a i ∧ (e.before.node a).Runs .syncActiveView i := by
  simp [Announced, or_and_right, exists_or]

lemma Linking.step {fresh : Prop} (h : Linking ids fresh a b tr v) (ha : a ∈ ids) (hb : b ∈ ids)
    (hadd : Run (Network.step Hyparview.protocol ids) v add v')
    (hshadow : Shadowed ids w w' v v' mv add) :
    Linking ids fresh a b (tr ++ [⟨w, mv, w'⟩]) v' := by
  intro hmoves
  obtain ⟨hsane, hlink⟩ := h fun e he => hmoves e (List.mem_append_left _ he)
  have hspares := spares_of_shadowed hshadow (hmoves ⟨w, mv, w'⟩ (by simp))
  refine ⟨Hyparview.Cluster.sane_of_run hsane hadd, fun hsync => ?_⟩
  apply Hyparview.Cluster.mending_of_run hsane hadd hspares ha hb
  rw [announced_concat, ← or_assoc] at hsync
  exact hsync.imp hlink (announced_of_shadowed hshadow ha)

lemma mending_of_run (hs₀ : ∀ p ∈ ids, Steady p (w₀.node p))
    (h : Run (Network.step protocol ids) w₀ tr w) (hmoves : ∀ e ∈ tr, Heeded a b e)
    (ha : a ∈ ids) (hb : b ∈ ids)
    (hsync : b ∉ (w₀.node a).node.hyparviewNode.activeView ∨ Announced tr a) :
    ∃ v, hyparviewHosting.Hosted ids w v ∧ Hyparview.Cluster.Mending ids v a b := by
  obtain ⟨v₀, hv₀, hnode, _⟩ := hyparviewHosting.exists_hosted ids w₀
  have hok : ∀ e ∈ tr, ∀ p i, e.input = .call p i → i.Closed := by
    intro e he p i hi
    have hreliable := (hmoves e he).1
    rw [hi] at hreliable
    exact closed_of_reliable hreliable
  have hstart : Linking (M := M) ids (b ∉ (w₀.node a).node.hyparviewNode.activeView) a b [] v₀ := by
    refine fun _ => ⟨sane_of_hosted hs₀ hv₀, ?_⟩
    rintro (hnot | ⟨e, he, _⟩) hmem
    · rw [hnode] at hmem
      exact absurd hmem hnot
    · cases he
  obtain ⟨_, _, v, _, hv, hlink⟩ := Hosting.Hosted.run
    (Q := fun tr _ _ v => Linking ids (b ∉ (w₀.node a).node.hyparviewNode.activeView) a b tr v)
    hyparview_hosts (fun _ _ _ hs ht => steady_of_step hs ht)
    (fun _ _ _ _ _ _ _ _ hl _ _ _ hadd hshadow => hl.step ha hb hadd hshadow) h hok hs₀ hv₀ hstart
  exact ⟨v, hv, (hlink hmoves).2 hsync⟩

/-- At rest the link of a node that has announced itself is mended. -/
lemma linked_at_rest (hs₀ : ∀ p ∈ ids, Steady p (w₀.node p))
    (h : Run (Network.step protocol ids) w₀ tr w) (hmoves : ∀ e ∈ tr, Heeded a b e)
    (ha : a ∈ ids) (hb : b ∈ ids)
    (hsync : b ∉ (w₀.node a).node.hyparviewNode.activeView ∨ Announced tr a)
    (hf : w.flight = []) (hq : ∀ p ∈ ids, Quiet (w.node p))
    (hab : b ∈ (w.node a).node.hyparviewNode.activeView) :
    a ∈ (w.node b).node.hyparviewNode.activeView := by
  obtain ⟨v, hv, hlink⟩ := mending_of_run hs₀ h hmoves ha hb hsync
  have hnode := hv.node_eq
  have hflight : v.flight = [] := by
    rw [List.eq_nil_iff_forall_not_mem]
    rintro ⟨d, m⟩ hm
    rcases (mem_waiting_hyparview.mp ((hv.mem_flight _).mp hm)).2 with hm | ⟨p, hp, hm⟩
    · simp [hf] at hm
    · obtain ⟨_, _, hserver, hrx⟩ := hq p hp
      simp [Session.held, hserver, hrx] at hm
  have hqueues : ∀ p ∈ ids, (v.node p).actions = [] := by
    intro p hp
    rw [hnode p hp]
    exact (hq p hp).1
  have hlinked := hlink.at_rest hflight hqueues
  rw [hnode a ha, hnode b hb] at hlinked
  exact hlinked hab

/-- The node runs its task when its time has come. -/
def Punctual (s : Session K A M R) : Prop :=
  s.node.params = {} ∧ ∃ k, s.Timed .syncActiveView k

lemma Punctual.step {s t : Session K A M R} {i : Input K A M} (h : Punctual s) (ha : s.Agreeing)
    (hs : s.step i = .ok t) : Punctual t := by
  obtain ⟨hp, k, ht⟩ := h
  obtain ⟨hp', ht'⟩ := ht.step ha hp hs
  exact ⟨hp', _, ht'⟩

omit [DecidableEq K] [DecidableEq A] [Rng R] in
lemma sameTime_post (s : Session K A M R) : SameTime s.node s.post.2.node := by
  unfold Session.post
  split
  · exact .refl _
  · dsimp only
    split <;> exact ⟨rfl, rfl, rfl, rfl, rfl⟩

omit [DecidableEq K] [DecidableEq A] [Rng R] in
lemma Punctual.post {s : Session K A M R} (h : Punctual s) : Punctual s.post.2 := by
  obtain ⟨hp, k, ht⟩ := h
  exact ⟨(sameTime_post s).params_eq.trans hp, k, ht.congr (sameTime_post s)⟩

lemma punctual_of_step (hsteady : ∀ p ∈ ids, Steady p (w.node p))
    (h : ∀ p ∈ ids, Punctual (w.node p)) (hs : Network.step protocol ids w mv = .ok w') :
    (∀ p ∈ ids, Punctual (w'.node p)) ∧ ∀ p ∈ ids,
      (∃ i, mv = .call p i ∧ (w.node p).Runs .syncActiveView i) ∨
        Task.due (w'.node p).node .syncActiveView = Task.due (w.node p).node .syncActiveView := by
  have hone : ∀ {p s}, Punctual s →
      (Task.due s.node .syncActiveView = Task.due (w.node p).node .syncActiveView ∨
        ∃ i, mv = .call p i ∧ (w.node p).Runs .syncActiveView i) → p ∈ ids →
      (∀ q ∈ ids, Punctual ((w.update p s).node q)) ∧ ∀ q ∈ ids,
        (∃ i, mv = .call q i ∧ (w.node q).Runs .syncActiveView i) ∨
          Task.due ((w.update p s).node q).node .syncActiveView =
            Task.due (w.node q).node .syncActiveView := by
    intro p s hpunctual hdue hp
    refine ⟨Network.forall_update (Q := fun _ s => Punctual s) h hpunctual, fun q hq => ?_⟩
    rw [Network.node_update]
    split
    next hqp =>
      subst hqp
      exact hdue.symm
    next => exact .inr rfl
  cases Network.change_of_step hs with
  | idle => exact ⟨h, fun _ _ => .inr rfl⟩
  | @called p i s hp hc =>
    have ha := (hsteady p hp).agreeing
    refine hone ((h p hp).step ha hc) ?_ hp
    by_cases hr : (w.node p).Runs .syncActiveView i
    · exact .inr ⟨i, rfl, hr⟩
    · exact .inl (Session.due_of_not_runs ha hc hr)
  | @polled p out s hp hc =>
    have hpost : (w.node p).post = (out, s) := Except.ok.inj hc
    have hsame := sameTime_post (w.node p)
    have hpunctual := (h p hp).post
    rw [hpost] at hsame hpunctual
    exact hone hpunctual (.inl (hsame.due_eq .syncActiveView)) hp
  | @delivered i d m s rest hd _ hc =>
    have ha := (hsteady d hd).agreeing
    exact hone ((h d hd).step (i := .arrive m) ha hc)
      (.inl (Session.due_of_not_runs (i := .arrive m) ha hc id)) hd
  | @duplicated i d m s hd _ hc =>
    have ha := (hsteady d hd).agreeing
    exact hone ((h d hd).step (i := .arrive m) ha hc)
      (.inl (Session.due_of_not_runs (i := .arrive m) ha hc id)) hd
  | discarded => exact ⟨h, fun _ _ => .inr rfl⟩
  | lost => exact ⟨h, fun _ _ => .inr rfl⟩

lemma announced_of_clock (hs₀ : ∀ p ∈ ids, Steady p (w₀.node p))
    (hp₀ : ∀ p ∈ ids, Punctual (w₀.node p)) (h : Run (Network.step protocol ids) w₀ tr w)
    (ha : a ∈ ids)
    (hdue : (w₀.node a).node.hyparviewSyncActiveViewTime ≤ (w.plumtree a).clock.now) :
    Announced tr a := by
  have hkept : (∀ p ∈ ids, Steady p (w.node p)) ∧ (∀ p ∈ ids, Punctual (w.node p)) ∧
      (Announced tr a ∨ Task.due (w.node a).node .syncActiveView =
        Task.due (w₀.node a).node .syncActiveView) := by
    apply h.history (P := fun tr w => (∀ p ∈ ids, Steady p (w.node p)) ∧
      (∀ p ∈ ids, Punctual (w.node p)) ∧ (Announced tr a ∨
        Task.due (w.node a).node .syncActiveView = Task.due (w₀.node a).node .syncActiveView))
    · rintro tr w mv w' ⟨hs, hp, hkept⟩ hstep
      obtain ⟨hp', hone⟩ := punctual_of_step hs hp hstep
      refine ⟨steady_of_step hs hstep, hp', ?_⟩
      rw [announced_concat]
      rcases hkept with hann | hsame
      · exact .inl (.inl hann)
      · exact (hone a ha).imp .inr fun hd => hd.trans hsame
    · exact ⟨hs₀, hp₀, .inr rfl⟩
  obtain ⟨_, hp, hann | hsame⟩ := hkept
  · exact hann
  · obtain ⟨_, k, htimed⟩ := hp a ha
    have hlt := htimed.clock_lt
    rw [hsame] at hlt
    exact absurd hdue hlt.not_ge

lemma punctual_of_run
    (h₀ : ∀ p ∈ ids, Session.new p (rng p) (draws p) (choices p) = .ok (w₀.node p))
    (h : Run (Network.step protocol ids) w₀ tr w) : ∀ p ∈ ids, Punctual (w.node p) := by
  have hboth : (∀ p ∈ ids, Steady p (w.node p)) ∧ ∀ p ∈ ids, Punctual (w.node p) := by
    apply h.invariant (P := fun w => (∀ p ∈ ids, Steady p (w.node p)) ∧
      ∀ p ∈ ids, Punctual (w.node p))
    · rintro w mv w' ⟨hs, hp⟩ hstep
      exact ⟨steady_of_step hs hstep, (punctual_of_step hs hp hstep).1⟩
    · refine ⟨fun p hp => .new (h₀ p hp), fun p hp => ?_⟩
      obtain ⟨hparams, htimed⟩ := Session.timed_new (h₀ p hp) .syncActiveView
      exact ⟨hparams, 0, htimed⟩
  exact hboth.2

variable {w₁ : Cluster K A M R}

/-- The network mends itself. Whatever was lost, forged or wrongly reported before: once messages
between two nodes are not lost any more and their clocks have reached the times at which they were
to announce themselves, they agree at rest whether they are neighbours. Where neither has the other
to begin with, there is no need to wait. -/
theorem neighbours_mended
    (h₀ : ∀ p ∈ ids, Session.new p (rng p) (draws p) (choices p) = .ok (w₀.node p))
    (hbefore : Run (Network.step protocol ids) w₀ tr₀ w₁)
    (h : Run (Network.step protocol ids) w₁ tr w)
    (hmoves : ∀ e ∈ tr, Reliable a b e.before e.input ∧ ¬ Reported a b e ∧ ¬ Reported b a e)
    (ha : a ∈ ids) (hb : b ∈ ids)
    (hta : b ∉ (w₁.node a).node.hyparviewNode.activeView ∨
      (w₁.node a).node.hyparviewSyncActiveViewTime ≤ (w.plumtree a).clock.now)
    (htb : a ∉ (w₁.node b).node.hyparviewNode.activeView ∨
      (w₁.node b).node.hyparviewSyncActiveViewTime ≤ (w.plumtree b).clock.now)
    (hf : w.flight = []) (hq : ∀ p ∈ ids, Quiet (w.node p)) :
    a ∈ (w.plumtree b).neighbours ↔ b ∈ (w.plumtree a).neighbours := by
  have hs₁ := steady_of_run h₀ hbefore
  have hp₁ := punctual_of_run h₀ hbefore
  have hs := steady_of_run h₀ (hbefore.append h)
  have hneighbours : ∀ p ∈ ids, ∀ x, x ∈ (w.plumtree p).neighbours ↔
      x ∈ (w.node p).node.hyparviewNode.activeView := by
    intro p hp x
    have hagreed := (hs p hp).agreeing.coherent.agreed
    rw [(hq p hp).1, Hyparview.replay_nil] at hagreed
    rw [plumtree, Option.some.inj hagreed, List.mem_toFinset]
  rw [hneighbours b hb, hneighbours a ha]
  constructor
  · refine linked_at_rest hs₁ h (fun e he => ?_) hb ha (htb.imp_right ?_) hf hq
    · exact ⟨(hmoves e he).1.symm, (hmoves e he).2.1⟩
    · exact announced_of_clock hs₁ hp₁ h hb
  · refine linked_at_rest hs₁ h (fun e he => ?_) ha hb (hta.imp_right ?_) hf hq
    · exact ⟨(hmoves e he).1, (hmoves e he).2.2⟩
    · exact announced_of_clock hs₁ hp₁ h ha

omit [DecidableEq K] [DecidableEq A] [Rng R] in
lemma reported_call {p q x : NodeId K A} {i : Input K A M} :
    Reported p x ⟨w, .call q i, w'⟩ ↔ q = p ∧ (w.node p).taken i = some (P2PNode.lost x) := by
  constructor
  · rintro ⟨_, hi, htaken⟩
    cases hi
    exact ⟨rfl, htaken⟩
  · rintro ⟨rfl, htaken⟩
    exact ⟨i, rfl, htaken⟩

instance [DecidableEq M] (p x : NodeId K A) :
    (e : Taken (Cluster K A M R) (Move (NodeId K A) (Input K A M))) → Decidable (Reported p x e)
  | ⟨_, .call _ _, _⟩ => decidable_of_iff _ reported_call.symm
  | ⟨_, .poll _, _⟩ => .isFalse (by simp [Reported])
  | ⟨_, .deliver _, _⟩ => .isFalse (by simp [Reported])
  | ⟨_, .duplicate _, _⟩ => .isFalse (by simp [Reported])
  | ⟨_, .lose _, _⟩ => .isFalse (by simp [Reported])

/-- Node 0 has let node 1 in, which does not hear of it, and its clock runs on. -/
def halfOpen : List (Move (NodeId ℕ ℕ) (Input ℕ ℕ ℕ)) :=
  .flatten [[.call (host 1) (.join (host 0)), .call (host 1) (.poll none)], stages 1 9,
    [.poll (host 1), .deliver 0, .call (host 0) (.poll none)], stages 0 14,
    [.poll (host 0), .lose 0],
    .flatten (.replicate 599 (.call (host 0) (.poll (some ⟨0, 0, 0⟩)) :: stages 0 4))]

def oneSided : Cluster ℕ ℕ ℕ Playback :=
  reached (Network.step protocol {host 0, host 1}) fresh halfOpen

/-- With the next tick node 0 announces itself. -/
def synced : List (Move (NodeId ℕ ℕ) (Input ℕ ℕ ℕ)) :=
  .flatten [[.call (host 0) (.poll (some ⟨0, 0, 0⟩))], stages 0 9,
    [.poll (host 0), .deliver 0, .call (host 1) (.poll none)], stages 1 14,
    [.poll (host 1), .deliver 0, .call (host 0) (.poll none)], stages 0 14]

set_option maxRecDepth 4000 in
set_option synthInstance.maxSize 512 in
theorem neighbours_mended_synced : ∃ (w₁ w : Cluster ℕ ℕ ℕ Playback)
    (tr tr₀ : List (Taken (Cluster ℕ ℕ ℕ Playback) (Move (NodeId ℕ ℕ) (Input ℕ ℕ ℕ)))),
      Run (Network.step protocol {host 0, host 1}) fresh tr₀ w₁ ∧
      Run (Network.step protocol {host 0, host 1}) w₁ tr w ∧
      host 1 ∈ (w₁.plumtree (host 0)).neighbours ∧ host 0 ∉ (w₁.plumtree (host 1)).neighbours ∧
      host 0 ∈ (w.plumtree (host 1)).neighbours := by
  have hstart : ∃ tr₀, Run (Network.step protocol {host 0, host 1}) fresh tr₀ oneSided :=
    Run.exists_of_reached halfOpen (by decide +kernel)
  obtain ⟨tr₀, hrun₀⟩ := hstart
  obtain ⟨tr, w, hrun, hmoves, ⟨hfirst, hback, hnot⟩, hdue, hf, hq, hkept⟩ :=
    @Run.exists_of_follow _ _ _ (Network.step protocol {host 0, host 1}) oneSided
      (fun tr (w : Cluster ℕ ℕ ℕ Playback) =>
        (∀ e ∈ tr, Undisturbed e.input ∧ ¬ Reported (host 0) (host 1) e ∧
          ¬ Reported (host 1) (host 0) e) ∧
        (host 1 ∈ (oneSided.plumtree (host 0)).neighbours ∧
          host 0 ∉ (oneSided.plumtree (host 1)).neighbours ∧
          host 0 ∉ (oneSided.node (host 1)).node.hyparviewNode.activeView) ∧
        (oneSided.node (host 0)).node.hyparviewSyncActiveViewTime ≤
          (w.plumtree (host 0)).clock.now ∧
        w.flight = [] ∧ (∀ p ∈ ({host 0, host 1} : Finset (NodeId ℕ ℕ)), Quiet (w.node p)) ∧
        host 1 ∈ (w.plumtree (host 0)).neighbours) _ synced (by decide +kernel)
  refine ⟨oneSided, w, tr, tr₀, hrun₀, hrun, hfirst, hback, ?_⟩
  exact (neighbours_mended (fun p _ => new_fresh p) hrun₀ hrun
    (fun e he => ⟨reliable_of_undisturbed (hmoves e he).1, (hmoves e he).2⟩) (by decide) (by decide)
    (.inr hdue) (.inl hnot) hf hq).mpr hkept

end Cluster

end QuicP2p.P2p
