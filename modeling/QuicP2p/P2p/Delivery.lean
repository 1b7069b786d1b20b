import QuicP2p.P2p.History
import QuicP2p.P2p.Maintenance
import QuicP2p.Plumtree.Integrity

/-! A network of peer-to-peer nodes is a network of Plumtree nodes, so what Plumtree promises about
its messages holds of those that the peer-to-peer nodes hand out. -/

namespace QuicP2p.P2p

open Library

namespace Shelf

variable {α : Type} {x y : Shelf α} {timestamp : α → ℕ} {c : Option WallClock} {d : Option α}

/-- Each message that was delivered is handed out or waits at most once, and if no two of them have
one timestamp, then each does. -/
structure Kept (timestamp : α → ℕ) (x : Shelf α) : Prop where
  tracked : x.Tracked timestamp
  le : (↑x.handedOut + x.pending : Multiset α) ≤ ↑(x.delivered.map Prod.fst)
  eq : ((x.delivered.map Prod.fst).map timestamp).Nodup →
    (↑x.handedOut + x.pending : Multiset α) = ↑(x.delivered.map Prod.fst)

lemma Step.delivered_eq (h : x.Step timestamp c d y) :
    y.delivered.map Prod.fst = x.delivered.map Prod.fst ++ d.toList := by
  cases h with
  | still => exact (List.append_nil _).symm
  | searched hs =>
    rw [hs.conserved.2]
    exact (List.append_nil _).symm
  | delivered a t hs =>
    rw [hs.conserved.2, put, List.map_append]
    rfl

lemma Kept.displaced_eq (h : x.Kept timestamp)
    (hd : ((x.delivered.map Prod.fst ++ d.toList).map timestamp).Nodup) :
    x.displaced timestamp d = 0 := by
  cases d with
  | none => rfl
  | some a =>
    cases hget : x.buffer.get (timestamp a) with
    | none => simp [displaced, hget]
    | some e =>
      have hmem := BTreeMap.get_eq_some.mp hget
      have hsame : timestamp a = timestamp e.1 := h.tracked.keyed _ hmem
      have hpending : e.1 ∈ x.pending := Multiset.mem_map.mpr ⟨_, hmem, rfl⟩
      have hdelivered : e.1 ∈ x.delivered.map Prod.fst :=
        Multiset.mem_coe.mp (Multiset.mem_of_le h.le (Multiset.mem_add.mpr (.inr hpending)))
      rw [List.map_append, List.nodup_append] at hd
      exact absurd hsame.symm
        (hd.2.2 _ (List.mem_map_of_mem hdelivered) _ (by simp))

lemma Kept.step (h : x.Kept timestamp) (hs : x.Step timestamp c d y) : y.Kept timestamp := by
  have hconserved := hs.conserved
  have hdelivered := hs.delivered_eq
  refine ⟨h.tracked.step hs, ?_, fun hnodup => ?_⟩
  · refine le_of_add_le_add_right (a := (↑(x.delivered.map Prod.fst) : Multiset α)) ?_
    calc (↑y.handedOut + y.pending + ↑(x.delivered.map Prod.fst) : Multiset α)
        ≤ ↑y.handedOut + y.pending + x.displaced timestamp d + ↑(x.delivered.map Prod.fst) :=
          add_le_add_left (Multiset.le_add_right _ _) _
      _ = ↑x.handedOut + x.pending + ↑(y.delivered.map Prod.fst) := hconserved
      _ ≤ ↑(x.delivered.map Prod.fst) + ↑(y.delivered.map Prod.fst) := add_le_add_left h.le _
      _ = ↑(y.delivered.map Prod.fst) + ↑(x.delivered.map Prod.fst) := add_comm _ _
  · rw [hdelivered] at hnodup
    have hold : ((x.delivered.map Prod.fst).map timestamp).Nodup := by
      rw [List.map_append] at hnodup
      exact hnodup.of_append_left
    rw [h.displaced_eq hnodup, add_zero, h.eq hold, add_comm] at hconserved
    exact add_left_cancel hconserved

end Shelf

variable {K A M R : Type}

def plumtreeMessage : P2pNodeProtocolMessage K A M → Option (PlumtreeMessage K A M)
  | .plumtree m => some m
  | _ => none

abbrev plumtreeHosting : Hosting (NodeId K A) (PlumtreeNode K A M) (PlumtreeMessage K A M)
    (Session K A M R) (P2pNodeProtocolMessage K A M) :=
  hosting P2PNode.plumtreeNode plumtreeMessage

/-- The input brings no message of Plumtree from elsewhere. -/
def Input.Native : Input K A M → Prop
  | .arrive m => plumtreeMessage m = none
  | _ => True

lemma plumtreeMessage_eq_some {n : P2pNodeProtocolMessage K A M} {m : PlumtreeMessage K A M} :
    plumtreeMessage n = some m ↔ n = .plumtree m := by
  cases n <;> simp [plumtreeMessage]

lemma carriedBy_hyparviewAction (id : NodeId K A) (a : HyparviewAction K A) :
    carriedBy (M := M) plumtreeMessage id (P2PNode.callOf a) = [] := by
  cases a <;> rfl

lemma carriedBy_plumtreeAction (id : NodeId K A) (a : PlumtreeAction K A M) :
    carriedBy plumtreeMessage id (plumtreeCall a) = (Plumtree.Action.outgoing a).toList := by
  cases a <;> rfl

lemma carriedBy_departure (id : NodeId K A) (peers : List (NodeId K A)) :
    carriedBy (M := M) plumtreeMessage id (peers.flatMap (fun peer =>
      [.sendProtocolMessage peer (.hyparview (.disconnect ⟨id, false⟩)),
        .notifySelfDisconnect peer])) = [] := by
  rw [carriedBy, List.filterMap_eq_nil_iff]
  rintro ⟨d, m⟩ hm
  obtain ⟨c, hc, hm⟩ := List.mem_filterMap.mp hm
  obtain ⟨x, _, hc⟩ := List.mem_flatMap.mp hc
  rcases List.mem_cons.mp hc with rfl | hc
  · cases hm
    rfl
  · obtain rfl := List.mem_singleton.mp hc
    cases hm
    rfl

/-- The message that an input broadcasts. -/
def Session.broadcasting (s : Session K A M R) : Input K A M → Option (PlumtreeAppMessage K A M)
  | .broadcast payload clock =>
    if s.stage = .idle then some ⟨⟨s.node.id, s.node.messageSeqno, clock.now⟩, payload⟩ else none
  | _ => none

lemma Session.idle_of_broadcasting {s : Session K A M R} {i : Input K A M}
    {m : PlumtreeAppMessage K A M} (h : s.broadcasting i = some m) : s.stage = .idle := by
  cases i with
  | broadcast payload clock =>
    simp only [broadcasting] at h
    split_ifs at h with hidle
    exact hidle
  | _ => cases h

/-- The message that a call broadcasts. -/
def broadcastBy : Plumtree.Call (NodeId K A) (MessageId K A) M → Option (PlumtreeAppMessage K A M)
  | .broadcastMessage m => some m
  | _ => none

variable [DecidableEq K] [DecidableEq A]

/-- The action that a deed takes from the queue of Plumtree. -/
def poppedBy (n : PlumtreeNode K A M) : Deed (NodeId K A) (PlumtreeMessage K A M)
    (Plumtree.Call (NodeId K A) (MessageId K A) M) → List (PlumtreeAction K A M)
  | .poll _ => (n.pollAction.toOption.bind Prod.fst).toList
  | _ => []

/-- What the node does to Plumtree: it keeps all messages, broadcasts the ones it is given, and logs
the ones that Plumtree delivers. -/
structure PlumtreeDid (s : Session K A M R) (i : Input K A M) (deed : Deed (NodeId K A)
    (PlumtreeMessage K A M) (Plumtree.Call (NodeId K A) (MessageId K A) M)) (t : Session K A M R) :
    Prop where
  keeping : ∀ c ∈ deed.calls, c.Keeping
  broadcast : deed.calls.filterMap broadcastBy = (s.broadcasting i).toList
  delivered : t.delivered.map Prod.fst = s.delivered.map Prod.fst ++
    (poppedBy s.node.plumtreeNode deed).filterMap Plumtree.Action.delivered

variable [Rng R]

lemma Session.broadcast_of_step {s t : Session K A M R} {payload : M} {clock : WallClock}
    (hidle : s.stage = .idle) (h : s.step (.broadcast payload clock) = .ok t) :
    ∃ id n, s.node.broadcast payload clock = .ok (id, n) ∧ t = { s with node := n } := by
  simp only [step, if_pos hidle] at h
  obtain ⟨⟨id, n⟩, hn, h⟩ := bind_eq_ok.mp h
  exact ⟨id, n, hn, (Except.ok.inj h).symm⟩

lemma Session.seqno_of_step {s t : Session K A M R} {i : Input K A M} (h : s.step i = .ok t) :
    t.node.messageSeqno = s.node.messageSeqno + (s.broadcasting i).toList.length ∧
      ∀ m ∈ s.broadcasting i, m.id.node = s.node.id ∧ m.id.seqno = s.node.messageSeqno := by
  cases hb : s.broadcasting i with
  | none =>
    refine ⟨?_, by simp⟩
    cases stepped_of_step h with
    | broadcast hidle => simp [broadcasting, hidle] at hb
    | left =>
      rw [P2PNode.leave_eq]
      rfl
    | ticked _ ht =>
      obtain ⟨_, _, _, _, _, _, _, _, _, rfl⟩ := P2PNode.handleTick_ok ht
      rfl
    | acted _ _ hn =>
      have hkept := (P2PNode.handleHyparviewAction_kept hn).2
      exact hkept
    | searched _ hr =>
      obtain ⟨⟨_, _, hr⟩, _⟩ := (processSequentialMessages_spec _ _).of_ok hr
      rw [node_found, hr]
      rfl
    | @executed b receive now a q r _ _ hr =>
      obtain ⟨_, _, _, _, hseqno⟩ := P2PNode.handlePlumtreeAction_ok hr
      change (s.found (.plumtree true) r).node.messageSeqno = _
      rw [node_found, hseqno]
      rfl
    | @received b stop receive now m rest n _ _ hn =>
      cases m with
      | hyparview m =>
        obtain ⟨_, _, hn⟩ := bind_eq_ok.mp hn
        cases hn
        rfl
      | plumtree m =>
        cases hn
        rfl
      | plumtreeStream m => cases hn
    | _ => rfl
  | some m =>
    have hidle := idle_of_broadcasting hb
    cases i with
    | broadcast payload clock =>
      obtain ⟨_, n, hn, rfl⟩ := broadcast_of_step hidle h
      obtain ⟨_, _, _, rfl⟩ := P2PNode.broadcast_ok hn
      simp only [broadcasting, if_pos hidle] at hb
      cases hb
      refine ⟨rfl, ?_⟩
      rintro _ ⟨⟩
      exact ⟨rfl, rfl⟩
    | _ => cases hb

omit [DecidableEq K] [DecidableEq A] [Rng R] in
lemma Session.shelf_post (s : Session K A M R) : s.post.2.shelf = s.shelf := by
  unfold post
  split
  · rfl
  · dsimp only
    split <;> rfl

/-- The step is a deed to Plumtree, and the account of its messages is kept. -/
def ServesPlumtree (p : NodeId K A) (s : Session K A M R) (i : Input K A M)
    (t : Session K A M R) : Prop :=
  ∃ deed, PlumtreeDid s i deed t ∧
    deed.Does Plumtree.protocol s.node.plumtreeNode t.node.plumtreeNode ∧
    deed.taken p + plumtreeHosting.stored t = plumtreeHosting.stored s + deed.given

namespace ServesPlumtree

variable {s t : Session K A M R} {i : Input K A M} {p : NodeId K A} {n : P2PNode K A M R}

omit [Rng R] in
lemma called (cs : List (Plumtree.Call (NodeId K A) (MessageId K A) M))
    (hkeep : ∀ c ∈ cs, c.Keeping) (hb : cs.filterMap broadcastBy = (s.broadcasting i).toList)
    (hc : cs.foldlM Plumtree.Node.perform s.node.plumtreeNode = .ok t.node.plumtreeNode)
    (hstored : plumtreeHosting.stored t = plumtreeHosting.stored s)
    (hd : t.delivered = s.delivered) : ServesPlumtree p s i t := by
  refine ⟨.call cs, ⟨hkeep, hb, ?_⟩, hc, ?_⟩
  · rw [hd]
    exact (List.append_nil _).symm
  · rw [hstored]
    exact add_comm _ _

omit [Rng R] in
lemma nothing (hb : s.broadcasting i = none)
    (hp : t.node.plumtreeNode = s.node.plumtreeNode)
    (hstored : plumtreeHosting.stored t = plumtreeHosting.stored s)
    (hd : t.delivered = s.delivered) : ServesPlumtree p s i t :=
  called [] (by simp) (by rw [hb]; rfl) (by rw [hp]; rfl) hstored hd

omit [Rng R] in
/-- One call, which broadcasts nothing. -/
lemma once {c : Plumtree.Call (NodeId K A) (MessageId K A) M} (hkeep : c.Keeping)
    (hc : broadcastBy c = none) (hb : s.broadcasting i = none)
    (hp : s.node.plumtreeNode.perform c = .ok t.node.plumtreeNode)
    (hstored : plumtreeHosting.stored t = plumtreeHosting.stored s)
    (hd : t.delivered = s.delivered) : ServesPlumtree p s i t := by
  refine called [c] (fun c' hc' => ?_) ?_ ?_ hstored hd
  · rwa [List.mem_singleton.mp hc']
  · rw [hb, List.filterMap_cons, hc]
    rfl
  · simpa only [List.foldlM_cons, List.foldlM_nil, bind_pure] using hp

omit [Rng R] in
lemma broadcast {payload : M} {clock : WallClock} {id : MessageId K A} (hid : n.id = s.node.id)
    (hidle : s.stage = .idle) (h : s.node.broadcast payload clock = .ok (id, n)) :
    ServesPlumtree p s (.broadcast payload clock) { s with node := n } := by
  obtain ⟨millis, rfl, rfl, rfl⟩ := P2PNode.broadcast_ok h
  refine called [.broadcastMessage _] (fun c hc => ?_) ?_ rfl (stored_congr _ _ hid rfl rfl) rfl
  · rw [List.mem_singleton.mp hc]
    trivial
  · rw [Session.broadcasting, if_pos hidle]
    rfl

omit [Rng R] in
lemma left (h : s.node.leave.id = s.node.id) :
    ServesPlumtree p s .leave { s with node := s.node.leave } := by
  refine nothing rfl (by rw [P2PNode.leave_eq]) ?_ rfl
  rw [stored_calls _ _ (t := { s with node := s.node.leave }) h (by rw [P2PNode.leave_eq])
    (by rw [P2PNode.leave_eq]), carriedBy_departure]
  exact add_zero _

lemma ticked {draws : Draws} (h : s.node.handleTick draws = .ok n) :
    ServesPlumtree p s (.poll (some draws)) { s with node := n, stage := .hyparview false } := by
  obtain ⟨_, _, _, _, _, _, _, _, _, rfl⟩ := P2PNode.handleTick_ok h
  exact once (c := .tick s.node.params.tickInterval) trivial rfl rfl rfl rfl rfl

/-- An action of HyParView is executed: Plumtree hears of it if it is an event. -/
lemma acted {b : Bool} {receive now : WallClock} {a : HyparviewAction K A}
    {rest : List (HyparviewAction K A)} (hid : n.id = s.node.id)
    (hn : { s.node with hyparviewNode := { s.node.hyparviewNode with actions := rest }
      }.handleHyparviewAction a = .ok n) :
    ServesPlumtree p s (.advance receive now) { s with node := n, stage := .hyparview b } := by
  have hstored : plumtreeHosting.stored ({ s with node := n, stage := .hyparview b } :
      Session K A M R) = plumtreeHosting.stored s := by
    have hrx := (P2PNode.handleHyparviewAction_kept hn).1
    rw [stored_calls _ _ hid (P2PNode.handleHyparviewAction_ok hn).2 hrx, carriedBy_hyparviewAction]
    exact add_zero _
  cases a with
  | send d m =>
    cases hn
    exact nothing rfl rfl hstored rfl
  | disconnect x =>
    obtain ⟨_, _, hn⟩ := bind_eq_ok.mp hn
    cases hn
    exact nothing rfl rfl hstored rfl
  | notify e =>
    cases e with
    | neighborUp x =>
      cases hn
      exact once (c := .handleNeighborUp x) trivial rfl rfl rfl hstored rfl
    | neighborDown x =>
      obtain ⟨q, hq, hn⟩ := bind_eq_ok.mp hn
      cases hn
      exact once (c := .handleNeighborDown x) trivial rfl rfl hq hstored rfl

omit [Rng R] in
/-- The next action of Plumtree is executed: a message goes to the server or is logged. -/
lemma executed {b : Bool} {receive now : WallClock} {a : PlumtreeAction K A M}
    {q : PlumtreeNode K A M} {r : Option (PlumtreeAppMessage K A M) × P2PNode K A M R}
    (hid : r.2.id = s.node.id) (ha : s.node.plumtreeNode.pollAction = .ok (some a, q))
    (hr : { s.node with plumtreeNode := q }.handlePlumtreeAction receive now a = .ok r) :
    ServesPlumtree p s (.advance receive now) { s.found (.plumtree b) r with
      delivered := s.delivered ++ Session.deliverOf receive a } := by
  obtain ⟨_, hp, hserver, hrx, _⟩ := P2PNode.handlePlumtreeAction_ok hr
  have hnode : ({ s.found (.plumtree b) r with
      delivered := s.delivered ++ Session.deliverOf receive a } : Session K A M R).node = r.2 :=
    Session.node_found
  refine ⟨.poll (Plumtree.Action.outgoing a), ⟨by simp [Deed.calls], rfl, ?_⟩, ?_, ?_⟩
  · change (s.delivered ++ Session.deliverOf receive a).map Prod.fst = _
    rw [List.map_append, poppedBy, ha]
    cases a <;> rfl
  · change Plumtree.protocol.poll s.node.plumtreeNode = .ok (_, _)
    rw [hnode, hp]
    simp only [Plumtree.protocol, ha]
    rfl
  · rw [stored_calls _ _ (s := s) (c := plumtreeCall a) (by rw [hnode, hid])
      (by rw [hnode, hserver]) (by rw [hnode, hrx]), carriedBy_plumtreeAction]
    exact zero_add _

omit [Rng R] in
lemma exhausted {b : Bool} {receive now : WallClock} {q : PlumtreeNode K A M}
    (hid : q.id = s.node.id) (ha : s.node.plumtreeNode.pollAction = .ok (none, q)) :
    ServesPlumtree p s (.advance receive now)
      { s with node := { s.node with plumtreeNode := q }, stage := .receive b } := by
  refine ⟨.poll none, ⟨by simp [Deed.calls], rfl, ?_⟩, ?_, ?_⟩
  · rw [poppedBy, ha]
    exact (List.append_nil _).symm
  · change Plumtree.protocol.poll s.node.plumtreeNode = .ok (_, _)
    simp only [Plumtree.protocol, ha]
    rfl
  · have hstored := stored_congr P2PNode.plumtreeNode plumtreeMessage (s := s)
      (t := { s with
        node := { s.node with plumtreeNode := q }
        stage := .receive b }) hid rfl rfl
    rw [hstored]
    exact add_comm _ _

lemma received {stop : Bool} {receive now : WallClock} {m : P2pNodeProtocolMessage K A M}
    {rest : List (P2pNodeProtocolMessage K A M)} (h : Steady p s) (hid : n.id = s.node.id)
    (hm : s.node.messageRx = m :: rest)
    (hn : { s.node with messageRx := rest }.handleP2pnodeProtocolMessage m = .ok (stop, n)) :
    ServesPlumtree p s (.advance receive now)
      { s with node := n, stage := if stop then .hyparview false else .receive true } := by
  cases m with
  | hyparview m =>
    obtain ⟨hv, _, hn⟩ := bind_eq_ok.mp hn
    cases hn
    refine nothing rfl rfl ?_ rfl
    have hstored := stored_taken P2PNode.plumtreeNode plumtreeMessage
      (t := { s with
        node := { s.node with messageRx := rest, hyparviewNode := hv }
        stage := .hyparview false }) hm hid rfl rfl
    exact (zero_add _).symm.trans hstored
  | plumtree m =>
    cases hn
    refine ⟨.receive m, ⟨by simp [Deed.calls], rfl, (List.append_nil _).symm⟩, rfl, ?_⟩
    have hstored := stored_taken P2PNode.plumtreeNode plumtreeMessage
      (t := { s with
        node := { s.node with
          messageRx := rest
          plumtreeNode := (s.node.plumtreeNode.handleProtocolMessage m).2 }
        stage := .receive true }) hm hid rfl rfl
    rw [← hstored, h.id_eq]
    exact (add_zero _).symm
  | plumtreeStream m => cases hn

/-- The step lemma: each step of a session serves Plumtree. -/
lemma of_step (h : Steady p s) (hok : i.Native) (hs : s.step i = .ok t) :
    ServesPlumtree p s i t := by
  have hid : t.node.id = s.node.id := (h.step hs).id_eq.trans h.id_eq.symm
  cases Session.stepped_of_step hs with
  | refused =>
    cases hb : s.broadcasting i with
    | none => exact nothing hb rfl rfl rfl
    | some m =>
      cases i with
      | broadcast payload clock =>
        have hidle := Session.idle_of_broadcasting hb
        obtain ⟨id, n, hn, hsame⟩ := Session.broadcast_of_step hidle hs
        have hid : n.id = s.node.id :=
          congrArg (fun u : Session K A M R => u.node.id) hsame.symm
        have hserves := broadcast (p := p) hid hidle hn
        rwa [← hsame] at hserves
      | _ => cases hb
  | joined => exact nothing rfl rfl rfl rfl
  | broadcast hidle hb => exact broadcast hid hidle hb
  | left => exact left hid
  | @arrived m =>
    refine nothing rfl rfl ?_ rfl
    have hnone : plumtreeMessage m = none := hok
    rw [stored_arrive, hnone]
    exact add_zero _
  | polled => exact nothing rfl rfl rfl rfl
  | ticked _ ht => exact ticked ht
  | acted _ _ hn => exact acted hid hn
  | drained => exact nothing rfl rfl rfl rfl
  | @searched b receive now r _ hr =>
    obtain ⟨⟨_, _, hr⟩, _⟩ := (Session.processSequentialMessages_spec _ _).of_ok hr
    have hnode : (s.found (.plumtree b) r).node = r.2 := Session.node_found
    refine nothing rfl (by rw [hnode, hr]) (stored_congr _ _ hid ?_ ?_) ?_
    · rw [hnode, hr]
    · rw [hnode, hr]
    · obtain ⟨_ | _, _⟩ := r
      · rfl
      · rfl
  | @executed b receive now a q r _ ha hr =>
    have hnode : ({ s.found (.plumtree true) r with
        delivered := s.delivered ++ Session.deliverOf receive a } : Session K A M R).node = r.2 :=
      Session.node_found
    rw [hnode] at hid
    exact executed hid ha hr
  | exhausted _ ha => exact exhausted hid ha
  | received _ hm hn => exact received h hid hm hn
  | ended => exact nothing rfl rfl rfl rfl
  | @reordered i j =>
    exact once (c := .reorder i j) trivial rfl rfl rfl (stored_congr _ _ hid rfl rfl) rfl

end ServesPlumtree

lemma plumtree_hosts : (plumtreeHosting (K := K) (A := A) (M := M) (R := R)).Hosts
    Plumtree.protocol Cluster.protocol Steady Input.Native PlumtreeDid where
  poll := by
    intro p s out t hs hpost
    have hpost : s.post = (out, t) := Except.ok.inj hpost
    have hkept := s.post_spec.plumtree_eq
    have hstored := stored_post P2PNode.plumtreeNode plumtreeMessage s
    rw [hpost] at hkept hstored
    exact ⟨hkept, hstored⟩
  receive := by
    intro p s m t hs hm
    cases hm
    rw [← hs.id_eq]
    exact ⟨rfl, stored_arrive _ _ s m⟩
  call := by
    intro p s i t hs hok hc
    exact ServesPlumtree.of_step hs hok hc

namespace Cluster

variable {ids : Finset (NodeId K A)} {w w₀ w' : Cluster K A M R} {rng : NodeId K A → R}
  {draws : NodeId K A → Draws} {choices : NodeId K A → List ℕ} {a b p d : NodeId K A}
  {mv : Move (NodeId K A) (Input K A M)}
  {v v' : Plumtree.Cluster (NodeId K A) (MessageId K A) M}
  {tr tr₀ : List (Taken (Cluster K A M R) (Move (NodeId K A) (Input K A M)))}
  {add tr' : List (Taken (Plumtree.Cluster (NodeId K A) (MessageId K A) M)
    (Move (NodeId K A) (Plumtree.Call (NodeId K A) (MessageId K A) M)))}

/-- The message that a step broadcasts. -/
def broadcastOf (ids : Finset (NodeId K A))
    (e : Taken (Cluster K A M R) (Move (NodeId K A) (Input K A M))) :
    Option (PlumtreeAppMessage K A M) :=
  match e.input with
  | .call p i => if p ∈ ids then (e.before.node p).broadcasting i else none
  | _ => none

/-- The messages that the nodes were given to broadcast in the steps of a run, in order. -/
def broadcasts (ids : Finset (NodeId K A))
    (tr : List (Taken (Cluster K A M R) (Move (NodeId K A) (Input K A M)))) :
    List (PlumtreeAppMessage K A M) :=
  tr.filterMap (broadcastOf ids)

omit [Rng R] in
lemma broadcasts_concat (e : Taken (Cluster K A M R) (Move (NodeId K A) (Input K A M))) :
    broadcasts ids (tr ++ [e]) = broadcasts ids tr ++ (broadcastOf ids e).toList := by
  rw [broadcasts, List.filterMap_append, broadcasts]
  cases h : broadcastOf ids e <;> simp [h]

lemma log_of_uncalled (hs : Network.step protocol ids w mv = .ok w') {q : NodeId K A}
    (hmv : ∀ i, mv = .call q i → q ∉ ids) :
    (w'.node q).shelf = (w.node q).shelf ∧
      (w'.node q).node.messageSeqno = (w.node q).node.messageSeqno := by
  have hone : ∀ {p : NodeId K A} {s : Session K A M R}, s.shelf = (w.node p).shelf →
      s.node.messageSeqno = (w.node p).node.messageSeqno →
      ((w.update p s).node q).shelf = (w.node q).shelf ∧
        ((w.update p s).node q).node.messageSeqno = (w.node q).node.messageSeqno := by
    intro p s hshelf hseqno
    rw [Network.node_update]
    split
    next hqp =>
      subst hqp
      exact ⟨hshelf, hseqno⟩
    next => exact ⟨rfl, rfl⟩
  cases Network.change_of_step hs with
  | idle => exact ⟨rfl, rfl⟩
  | @called p i t hp hc =>
    have hqp : q ≠ p := by
      rintro rfl
      exact hmv i rfl hp
    rw [Network.node_update_of_ne w hqp]
    exact ⟨rfl, rfl⟩
  | @polled p out s hp hc =>
    have hpost : (w.node p).post = (out, s) := Except.ok.inj hc
    have hkept := Session.shelf_post (w.node p)
    have hseqno := (w.node p).post_spec.seqno_eq
    rw [hpost] at hkept hseqno
    exact hone hkept hseqno
  | delivered _ _ hc =>
    cases hc
    exact hone rfl rfl
  | duplicated _ _ hc =>
    cases hc
    exact hone rfl rfl
  | discarded => exact ⟨rfl, rfl⟩
  | lost => exact ⟨rfl, rfl⟩

abbrev Echoed (ids : Finset (NodeId K A)) (w w' : Cluster K A M R) :=
  (plumtreeHosting (K := K) (A := A) (M := M) (R := R)).Shadows ids PlumtreeDid w w'

/-- The moves of the Plumtree nodes keep all messages, broadcast those that the peer-to-peer nodes
are given to broadcast, and deliver those that they log. -/
structure Tallied (ids : Finset (NodeId K A))
    (tr : List (Taken (Cluster K A M R) (Move (NodeId K A) (Input K A M))))
    (w w' : Cluster K A M R)
    (tr' : List (Taken (Plumtree.Cluster (NodeId K A) (MessageId K A) M)
      (Move (NodeId K A) (Plumtree.Call (NodeId K A) (MessageId K A) M)))) : Prop where
  keeping : ∀ e ∈ tr', Plumtree.Keeping e.input
  broadcasts_eq : Plumtree.broadcasts ids tr' = broadcasts ids tr
  delivered_eq : ∀ p ∈ ids, (w'.node p).delivered.map Prod.fst =
    (w.node p).delivered.map Prod.fst ++
      (tr'.flatMap (Plumtree.executed p)).filterMap Plumtree.Action.delivered

lemma tallied_of_silent (hkeep : ∀ e ∈ add, Plumtree.Keeping e.input)
    (hmv : ∀ p i, mv = .call p i → p ∉ ids) (hbroadcast : Plumtree.broadcasts ids add = [])
    (hexecuted : ∀ p ∈ ids, ∀ e ∈ add, Plumtree.executed p e = [])
    (hs : Network.step protocol ids w mv = .ok w') : Tallied ids [⟨w, mv, w'⟩] w w' add where
  keeping := hkeep
  broadcasts_eq := by
    rw [hbroadcast, broadcasts]
    cases mv with
    | call p i => simp [broadcastOf, hmv p i rfl]
    | _ => rfl
  delivered_eq p hp := by
    have hnone : add.flatMap (Plumtree.executed p) = [] :=
      List.flatMap_eq_nil_iff.mpr (hexecuted p hp)
    have hshelf := congrArg Shelf.delivered (log_of_uncalled hs (hmv p)).1
    change (w'.node p).delivered = (w.node p).delivered at hshelf
    rw [hnone, hshelf]
    exact (List.append_nil _).symm

lemma broadcasts_map_call (hp : p ∈ ids)
    {cs : List (Plumtree.Call (NodeId K A) (MessageId K A) M)}
    (h : add.map Taken.input = cs.map (.call p)) :
    Plumtree.broadcasts ids add = cs.filterMap broadcastBy := by
  have hsame : Plumtree.broadcasts ids add =
      (add.map Taken.input).filterMap (Plumtree.broadcastOf ids) := by
    rw [List.filterMap_map]
    rfl
  rw [hsame, h, List.filterMap_map]
  refine List.filterMap_congr fun c _ => ?_
  cases c with
  | broadcastMessage m => exact if_pos hp
  | _ => rfl

omit [Rng R] in
/-- A node acts: what its Plumtree node delivers, it logs. -/
lemma tallied_of_did (hp : p ∈ ids) {i : Input K A M} {deed : Deed (NodeId K A)
      (PlumtreeMessage K A M) (Plumtree.Call (NodeId K A) (MessageId K A) M)}
    (hd : PlumtreeDid (w.node p) i deed (w'.node p)) (ht : Hosting.Traced p v v' deed add)
    (hn : ∀ q, q ≠ p → w'.node q = w.node q)
    (hv : v.node p = (w.node p).node.plumtreeNode) :
    Tallied ids [⟨w, .call p i, w'⟩] w w' add := by
  have hbroadcasts : broadcasts ids [⟨w, .call p i, w'⟩] =
      ((w.node p).broadcasting i).toList := by
    rw [broadcasts, filterMap_cons_toList]
    simp [broadcastOf, hp]
  -- the actions that each node executes
  have hexecuted : add.flatMap (Plumtree.executed p) =
      poppedBy (w.node p).node.plumtreeNode deed ∧
      ∀ q, q ≠ p → add.flatMap (Plumtree.executed q) = [] := by
    have hnone : (∀ e ∈ add, ∀ q, e.input ≠ .poll q) →
        ∀ q, add.flatMap (Plumtree.executed q) = [] := by
      intro hinput q
      refine List.flatMap_eq_nil_iff.mpr fun e he => ?_
      unfold Plumtree.executed
      split
      next x hx => exact absurd hx (hinput e he x)
      next => rfl
    cases deed with
    | call cs =>
      refine ⟨hnone ?_ p, fun q _ => hnone ?_ q⟩ <;>
      · intro e he x hx
        have hinput : e.input ∈ cs.map (Move.call p) := by
          rw [← ht]
          exact List.mem_map_of_mem he
        obtain ⟨c, _, hc⟩ := List.mem_map.mp hinput
        cases hc.trans hx
    | poll out =>
      obtain rfl : add = _ := ht
      refine ⟨?_, fun q hq => ?_⟩
      · simp [Plumtree.executed, poppedBy, hv]
      · simp [Plumtree.executed, Ne.symm hq]
    | receive m =>
      obtain ⟨mv, rfl, j, hmv, _⟩ := ht
      refine ⟨hnone ?_ p, fun q _ => hnone ?_ q⟩ <;>
      · intro e he x hx
        obtain rfl := List.mem_singleton.mp he
        rcases hmv with rfl | rfl <;> cases hx
  refine ⟨?_, ?_, fun q hq => ?_⟩
  · intro e he
    cases deed with
    | call cs =>
      have hinput : e.input ∈ cs.map (Move.call p) := by
        rw [← ht]
        exact List.mem_map_of_mem he
      obtain ⟨c, hc, he⟩ := List.mem_map.mp hinput
      rw [← he]
      exact hd.keeping c hc
    | poll out =>
      obtain rfl : add = _ := ht
      rw [List.mem_singleton.mp he]
      trivial
    | receive m =>
      obtain ⟨mv, rfl, j, rfl | rfl, _⟩ := ht
      · rw [List.mem_singleton.mp he]
        trivial
      · rw [List.mem_singleton.mp he]
        trivial
  · rw [hbroadcasts, ← hd.broadcast]
    cases deed with
    | call cs => exact broadcasts_map_call hp ht
    | poll out =>
      obtain rfl : add = _ := ht
      rfl
    | receive m =>
      obtain ⟨mv, rfl, j, rfl | rfl, _⟩ := ht
      · rfl
      · rfl
  · by_cases hqp : q = p
    · subst hqp
      rw [hexecuted.1]
      exact hd.delivered
    · rw [hexecuted.2 q hqp, hn q hqp]
      exact (List.append_nil _).symm

lemma tallied_of_echoed (hv : plumtreeHosting.Hosted ids w v)
    (hs : Network.step protocol ids w mv = .ok w') (h : Echoed ids w w' v v' mv add) :
    Tallied ids [⟨w, mv, w'⟩] w w' add := by
  cases h with
  | acted hp hd ht hn => exact tallied_of_did hp hd ht hn (hv.node_eq _ hp)
  | idle hmv => exact tallied_of_silent (by simp) hmv rfl (by simp) hs
  | discarded hmv =>
    refine tallied_of_silent ?_ (fun p i h => absurd h (hmv p i)) rfl ?_ hs
    · intro e he
      rw [List.mem_singleton.mp he]
      trivial
    · intro q _ e he
      rw [List.mem_singleton.mp he]
      rfl
  | lost =>
    refine tallied_of_silent ?_ (by simp) rfl ?_ hs
    · intro e he
      rw [List.mem_singleton.mp he]
      trivial
    · intro q _ e he
      rw [List.mem_singleton.mp he]
      rfl

omit [Rng R] in
lemma Tallied.append {w₁ : Cluster K A M R} (h : Tallied ids tr₀ w₀ w₁ tr')
    (h' : Tallied ids tr w₁ w add) : Tallied ids (tr₀ ++ tr) w₀ w (tr' ++ add) where
  keeping e he := (List.mem_append.mp he).elim (h.keeping e) (h'.keeping e)
  broadcasts_eq := by
    rw [Plumtree.broadcasts, broadcasts, List.filterMap_append, List.filterMap_append]
    exact congrArg₂ (· ++ ·) h.broadcasts_eq h'.broadcasts_eq
  delivered_eq p hp := by
    rw [h'.delivered_eq p hp, h.delivered_eq p hp, List.flatMap_append, List.filterMap_append,
      List.append_assoc]

omit [Rng R] in
lemma mem_waiting_plumtree {m : PlumtreeMessage K A M} :
    (d, m) ∈ plumtreeHosting.waiting ids w ↔
      (d, .plumtree m) ∈ w.flight ∨ ∃ p ∈ ids, (d, .plumtree m) ∈ (w.node p).held := by
  rw [mem_waiting_hosting]
  simp only [plumtreeMessage_eq_some, exists_eq_left]

omit [Rng R] in
lemma plumtree_hosted_of_new
    (h₀ : ∀ p ∈ ids, Session.new p (rng p) (draws p) (choices p) = .ok (w₀.node p))
    (hf₀ : w₀.flight = []) :
    plumtreeHosting.Hosted ids w₀ (Plumtree.fresh (fun _ => {}) choices) := by
  have hnew : ∀ p ∈ ids, (w₀.node p).node.plumtreeNode = .withOptions p {} (choices p) ∧
      (w₀.node p).held = [] := by
    intro p hp
    obtain ⟨_, _, _, hs⟩ := Session.new_ok (h₀ p hp)
    rw [hs]
    exact ⟨rfl, rfl⟩
  have hnone : plumtreeHosting.waiting ids w₀ = 0 := by
    refine Multiset.eq_zero_of_forall_notMem ?_
    rintro ⟨d, m⟩ he
    rcases mem_waiting_plumtree.mp he with hm | ⟨p, hp, hm⟩
    · simp [hf₀] at hm
    · simp [(hnew p hp).2] at hm
  refine ⟨fun p hp => (hnew p hp).1.symm, ?_⟩
  rw [hnone]
  exact .refl _

/-- The run lemma. -/
lemma tallied_of_run
    (h₀ : ∀ p ∈ ids, Session.new p (rng p) (draws p) (choices p) = .ok (w₀.node p))
    (hf₀ : w₀.flight = []) (h : Run (Network.step protocol ids) w₀ tr w)
    (hnative : ∀ e ∈ tr, ∀ p i, e.input = .call p i → i.Native) :
    ∃ tr' v, Run (Network.step Plumtree.protocol ids) (Plumtree.fresh (fun _ => {}) choices) tr' v ∧
      plumtreeHosting.Hosted ids w v ∧ Tallied ids tr w₀ w tr' := by
  have hstart : Tallied ids [] w₀ w₀ [] := by
    refine ⟨by simp, rfl, fun p hp => ?_⟩
    exact (List.append_nil _).symm
  exact (Hosting.Hosted.run (Q := fun tr w tr' _ => Tallied ids tr w₀ w tr') plumtree_hosts
    (fun _ _ _ hs ht => steady_of_step hs ht)
    (fun _ _ _ _ _ _ _ _ ht hv _ hs _ he => ht.append (tallied_of_echoed hv hs he)) h hnative
    (fun p hp => .new (h₀ p hp)) (plumtree_hosted_of_new h₀ hf₀) hstart).2

/-- A network of peer-to-peer nodes is one of Plumtree nodes: each run of it goes along with a run
of Plumtree nodes, in which every node is as it is there and the messages on their way are the same.
They broadcast what the applications broadcast, and what they deliver is put into the buffers. -/
theorem plumtree_refined
    (h₀ : ∀ p ∈ ids, Session.new p (rng p) (draws p) (choices p) = .ok (w₀.node p))
    (hf₀ : w₀.flight = []) (h : Run (Network.step protocol ids) w₀ tr w)
    (hnative : ∀ e ∈ tr, ∀ p i, e.input = .call p i → i.Native) :
    ∃ tr' v, Run (Network.step Plumtree.protocol ids) (Plumtree.fresh (fun _ => {}) choices) tr' v ∧
      (∀ p ∈ ids, v.node p = w.plumtree p) ∧
      (∀ d m, (d, m) ∈ v.flight ↔
        (d, .plumtree m) ∈ w.flight ∨ ∃ p ∈ ids, (d, .plumtree m) ∈ (w.node p).held) ∧
      (∀ e ∈ tr', Plumtree.Keeping e.input) ∧ Plumtree.broadcasts ids tr' = broadcasts ids tr ∧
      ∀ p ∈ ids, (tr'.flatMap (Plumtree.executed p)).filterMap Plumtree.Action.delivered =
        (w.node p).delivered.map Prod.fst := by
  obtain ⟨tr', v, hrun, hv, ht⟩ := tallied_of_run h₀ hf₀ h hnative
  refine ⟨tr', v, hrun, hv.node_eq, fun d m => (hv.mem_flight _).trans mem_waiting_plumtree,
    ht.keeping, ht.broadcasts_eq, fun p hp => ?_⟩
  obtain ⟨_, _, _, hs⟩ := Session.new_ok (h₀ p hp)
  rw [ht.delivered_eq p hp, hs]
  rfl

/-- The message of the first node comes to the second, and leaves its buffer later. -/
def shared : List (Move (NodeId ℕ ℕ) (Input ℕ ℕ ℕ)) :=
  .flatten [ordered, [.call (host 1) (.poll none)],
    .replicate 6 (.call (host 1) (.advance (some 5000) (some 5000)))]

lemma native_of_undisturbed {mv : Move (NodeId ℕ ℕ) (Input ℕ ℕ ℕ)} (h : Undisturbed mv) :
    ∀ p i, mv = .call p i → i.Native := by
  rintro p i rfl
  cases i with
  | arrive m => cases h
  | _ => trivial

set_option maxRecDepth 4000 in
theorem plumtree_refined_shared : ∃ (w : Cluster ℕ ℕ ℕ Playback)
    (v : Plumtree.Cluster (NodeId ℕ ℕ) (MessageId ℕ ℕ) ℕ)
    (tr : List (Taken (Cluster ℕ ℕ ℕ Playback) (Move (NodeId ℕ ℕ) (Input ℕ ℕ ℕ))))
    (tr' : List (Taken (Plumtree.Cluster (NodeId ℕ ℕ) (MessageId ℕ ℕ) ℕ)
      (Move (NodeId ℕ ℕ) (Plumtree.Call (NodeId ℕ ℕ) (MessageId ℕ ℕ) ℕ)))),
      Run (Network.step protocol {host 0, host 1}) fresh tr w ∧
      Run (Network.step Plumtree.protocol {host 0, host 1})
        (Plumtree.fresh (fun _ => {}) (fun _ => [])) tr' v ∧
      (v.node (host 1)).messages.get ⟨host 0, 0, 1000⟩ = some 7 := by
  have hrun : follow (Network.step protocol {host 0, host 1}) fresh shared = .ok _ := rfl
  have hmoves := Run.inputs_of_follow (C := fun mv => Undisturbed mv) shared hrun (by decide)
  obtain ⟨tr', v, hr, hnode, _⟩ := plumtree_refined (fun p _ => new_fresh p) rfl
    (Run.of_follow shared hrun) (fun e he => native_of_undisturbed (hmoves e he))
  refine ⟨_, v, _, tr', Run.of_follow shared hrun, hr, ?_⟩
  rw [hnode _ (by decide)]
  rfl

/-- The broadcasts have identifiers of their own, and the nodes keep what is delivered. -/
structure Posted (ids : Finset (NodeId K A)) (bs : List (PlumtreeAppMessage K A M))
    (w : Cluster K A M R) : Prop where
  numbered : ∀ m ∈ bs, m.id.node ∈ ids ∧ m.id.seqno < (w.node m.id.node).node.messageSeqno
  nodup : (bs.map Plumtree.Message.id).Nodup
  kept : ∀ p ∈ ids, (w.node p).shelf.Kept stamp

lemma Posted.uncalled {bs : List (PlumtreeAppMessage K A M)} (h : Posted ids bs w)
    (hs : Network.step protocol ids w mv = .ok w') (hmv : ∀ p i, mv = .call p i → p ∉ ids) :
    Posted ids bs w' where
  numbered m hm := by
    rw [(log_of_uncalled hs (hmv _)).2]
    exact h.numbered m hm
  nodup := h.nodup
  kept p hp := by
    rw [(log_of_uncalled hs (hmv p)).1]
    exact h.kept p hp

lemma Posted.called {bs : List (PlumtreeAppMessage K A M)} (h : Posted ids bs w)
    (hsteady : Steady p (w.node p)) (hp : p ∈ ids) {i : Input K A M} {t : Session K A M R}
    (hs : (w.node p).step i = .ok t) :
    Posted ids (bs ++ ((w.node p).broadcasting i).toList) (w.update p t) := by
  obtain ⟨hseqno, hnew⟩ := Session.seqno_of_step hs
  have hnew : ∀ m ∈ ((w.node p).broadcasting i).toList,
      m.id.node = p ∧ m.id.seqno = (w.node p).node.messageSeqno ∧
        t.node.messageSeqno = (w.node p).node.messageSeqno + 1 := by
    intro m hm
    obtain ⟨hnode, hm'⟩ := hnew m (Option.mem_toList.mp hm)
    refine ⟨hnode.trans hsteady.id_eq, hm', ?_⟩
    rw [hseqno, Option.mem_toList.mp hm]
    rfl
  refine ⟨fun m hm => ?_, ?_, ?_⟩
  · rcases List.mem_append.mp hm with hm | hm
    · obtain ⟨hids, hlt⟩ := h.numbered m hm
      refine ⟨hids, ?_⟩
      rw [Network.node_update]
      split
      next hmp =>
        rw [hmp] at hlt
        omega
      next => exact hlt
    · obtain ⟨rfl, hm, ht⟩ := hnew m hm
      refine ⟨hp, ?_⟩
      rw [Network.node_update_self]
      omega
  · rw [List.map_append, List.nodup_append]
    refine ⟨h.nodup, ?_, ?_⟩
    · cases (w.node p).broadcasting i <;> simp
    · intro a ha b hb hab
      obtain ⟨m, hm, rfl⟩ := List.mem_map.mp ha
      obtain ⟨n, hn, rfl⟩ := List.mem_map.mp hb
      obtain ⟨hnode, hn, _⟩ := hnew n hn
      have hlt := (h.numbered m hm).2
      rw [hab, hnode, hn] at hlt
      exact absurd hlt (lt_irrefl _)
  · exact Network.forall_update (Q := fun _ (s : Session K A M R) => s.shelf.Kept stamp) h.kept
      ((h.kept p hp).step (Session.shelf_of_step hs))

lemma Posted.step {bs : List (PlumtreeAppMessage K A M)} (h : Posted ids bs w)
    (hsteady : ∀ p ∈ ids, Steady p (w.node p)) (hs : Network.step protocol ids w mv = .ok w') :
    Posted ids (bs ++ (broadcastOf ids ⟨w, mv, w'⟩).toList) w' := by
  by_cases hmv : ∃ p ∈ ids, ∃ i, mv = .call p i
  · obtain ⟨p, hp, i, rfl⟩ := hmv
    cases Network.change_of_step hs with
    | idle hidle => exact absurd hp (hidle p rfl)
    | @called _ _ t _ ht =>
      have hbroadcast : broadcastOf ids ⟨w, .call p i, w.update p t⟩ =
          (w.node p).broadcasting i := if_pos hp
      rw [hbroadcast]
      exact h.called (hsteady p hp) hp ht
  · have hnone : ∀ p i, mv = .call p i → p ∉ ids := fun p i hi hp => hmv ⟨p, hp, i, hi⟩
    have hbroadcast : broadcastOf ids ⟨w, mv, w'⟩ = none := by
      cases mv with
      | call p i => exact if_neg (hnone p i rfl)
      | _ => rfl
    rw [hbroadcast, Option.toList_none, List.append_nil]
    exact h.uncalled hs hnone

lemma posted_of_run
    (h₀ : ∀ p ∈ ids, Session.new p (rng p) (draws p) (choices p) = .ok (w₀.node p))
    (h : Run (Network.step protocol ids) w₀ tr w) : Posted ids (broadcasts ids tr) w := by
  have hboth : (∀ p ∈ ids, Steady p (w.node p)) ∧ Posted ids (broadcasts ids tr) w := by
    apply h.history (P := fun tr w => (∀ p ∈ ids, Steady p (w.node p)) ∧
      Posted ids (broadcasts ids tr) w)
    · rintro tr w mv w' ⟨hsteady, hw⟩ hs
      rw [broadcasts_concat]
      exact ⟨steady_of_step hsteady hs, hw.step hsteady hs⟩
    · refine ⟨fun p hp => .new (h₀ p hp), by simp [broadcasts], by simp [broadcasts], ?_⟩
      intro p hp
      rw [Session.shelf_new (h₀ p hp)]
      exact ⟨⟨rfl, by simp [BTreeMap.empty]⟩, by simp [Shelf.pending, BTreeMap.contents,
        BTreeMap.empty], fun _ => by simp [Shelf.pending, BTreeMap.contents, BTreeMap.empty]⟩
  exact hboth.2

/-- What Plumtree promises of the messages that the nodes have put into their buffers. -/
structure Faithful (ids : Finset (NodeId K A))
    (tr : List (Taken (Cluster K A M R) (Move (NodeId K A) (Input K A M))))
    (w : Cluster K A M R) : Prop where
  nodup : ∀ p ∈ ids, (((w.node p).delivered.map Prod.fst).map Plumtree.Message.id).Nodup
  broadcast : ∀ p ∈ ids, ∀ m ∈ (w.node p).delivered.map Prod.fst, m ∈ broadcasts ids tr
  stored : ∀ p ∈ ids, (w.plumtree p).actions = [] → ∀ i x, (w.plumtree p).messages.get i = some x →
    ⟨i, x⟩ ∈ (w.node p).delivered.map Prod.fst
  held : ∀ m ∈ broadcasts ids tr, ∃ p ∈ ids, (w.plumtree p).Holds m.id

lemma faithful_of_run
    (h₀ : ∀ p ∈ ids, Session.new p (rng p) (draws p) (choices p) = .ok (w₀.node p))
    (hf₀ : w₀.flight = []) (h : Run (Network.step protocol ids) w₀ tr w)
    (hnative : ∀ e ∈ tr, ∀ p i, e.input = .call p i → i.Native) : Faithful ids tr w := by
  obtain ⟨tr', v, hrun, hv, ht⟩ := tallied_of_run h₀ hf₀ h hnative
  have hfresh := (posted_of_run h₀ h).nodup
  rw [← ht.broadcasts_eq] at hfresh
  have hsound₀ : Plumtree.Cluster.Sound ids [] (Plumtree.fresh (fun _ => {}) choices :
    Plumtree.Cluster (NodeId K A) (MessageId K A) M) := Plumtree.Cluster.fresh_sound _ choices
  have hlogged₀ : Plumtree.Cluster.Logged ids [] (Plumtree.fresh (fun _ => {}) choices :
    Plumtree.Cluster (NodeId K A) (MessageId K A) M) := Plumtree.Cluster.fresh_logged _ choices
  obtain ⟨hsound, hlogged⟩ :=
    Plumtree.Cluster.sound_of_run hsound₀ hlogged₀ hrun ht.keeping hfresh
  have hdelivered : ∀ p ∈ ids, Plumtree.delivers p tr' v = (w.node p).delivered.map Prod.fst ++
      (w.plumtree p).actions.filterMap Plumtree.Action.delivered := by
    intro p hp
    obtain ⟨_, _, _, hs⟩ := Session.new_ok (h₀ p hp)
    rw [Plumtree.delivers, List.filterMap_append, ht.delivered_eq p hp, hs, hv.node_eq p hp]
    rfl
  refine ⟨fun p hp => ?_, fun p hp m hm => ?_, fun p hp hactions i x hx => ?_, fun m hm => ?_⟩
  · have hnodup := hlogged.nodup p hp
    rw [hdelivered p hp, List.map_append] at hnodup
    exact hnodup.of_append_left
  · rw [← ht.broadcasts_eq]
    apply hsound.stored p hp m.id m.payload
    rw [hlogged.stored p hp, hdelivered p hp]
    exact List.mem_append_left _ hm
  · have hx : (v.node p).messages.get i = some x := by rwa [hv.node_eq p hp]
    rw [hlogged.stored p hp, hdelivered p hp, hactions] at hx
    simpa using hx
  · rw [← ht.broadcasts_eq] at hm
    obtain ⟨p, hp, hh⟩ :=
      Plumtree.Cluster.held_of_run hsound₀ hlogged₀ hrun ht.keeping hfresh m hm
    rw [hv.node_eq p hp] at hh
    exact ⟨p, hp, hh⟩

lemma broadcast_of_mem
    (h₀ : ∀ p ∈ ids, Session.new p (rng p) (draws p) (choices p) = .ok (w₀.node p))
    (h : Run (Network.step protocol ids) w₀ tr w) {m : PlumtreeAppMessage K A M}
    (hm : m ∈ broadcasts ids tr) :
    m.id.node ∈ ids ∧
      ∃ e ∈ tr, ∃ clock, e.input = .call m.id.node (.broadcast m.payload clock) := by
  obtain ⟨⟨w₁, mv, w₂⟩, he, hm⟩ := List.mem_filterMap.mp hm
  obtain ⟨tr₁, hr, _⟩ := h.to_before he
  cases mv with
  | call p i =>
    simp only [broadcastOf, Option.ite_none_right_eq_some] at hm
    obtain ⟨hp, hm⟩ := hm
    have hidle := Session.idle_of_broadcasting hm
    cases i with
    | broadcast payload clock =>
      rw [Session.broadcasting, if_pos hidle] at hm
      cases hm
      have hid := (steady_of_run h₀ hr p hp).id_eq
      refine ⟨?_, _, he, clock, ?_⟩
      · change (w₁.node p).node.id ∈ ids
        rwa [hid]
      · change Move.call p (Input.broadcast payload clock) = .call (w₁.node p).node.id _
        rw [hid]
    | _ => cases hm
  | _ => cases hm

/-- Each node hands each message out at most once, and hands out none but messages that were
broadcast under their very id, by the application of the node it names: whatever the network loses,
repeats or reorders, whoever joins or leaves, and whatever the clocks say. -/
theorem handed_out_once
    (h₀ : ∀ p ∈ ids, Session.new p (rng p) (draws p) (choices p) = .ok (w₀.node p))
    (hf₀ : w₀.flight = []) (h : Run (Network.step protocol ids) w₀ tr w)
    (hnative : ∀ e ∈ tr, ∀ p i, e.input = .call p i → i.Native) (hp : p ∈ ids) :
    ((w.node p).handedOut.map Plumtree.Message.id).Nodup ∧
      ∀ m ∈ (w.node p).handedOut, m ∈ broadcasts ids tr ∧ m.id.node ∈ ids ∧
        ∃ e ∈ tr, ∃ clock, e.input = .call m.id.node (.broadcast m.payload clock) := by
  have hfaithful := faithful_of_run h₀ hf₀ h hnative
  have hle : (↑(w.node p).handedOut : Multiset (PlumtreeAppMessage K A M)) ≤
      ↑((w.node p).delivered.map Prod.fst) :=
    (Multiset.le_add_right _ _).trans ((posted_of_run h₀ h).kept p hp).le
  refine ⟨?_, fun m hm => ?_⟩
  · have hids := Multiset.map_le_map hle (f := Plumtree.Message.id)
    rw [Multiset.map_coe, Multiset.map_coe] at hids
    exact Multiset.coe_nodup.mp
      (Multiset.nodup_of_le hids (Multiset.coe_nodup.mpr (hfaithful.nodup p hp)))
  · have hm : m ∈ (w.node p).delivered.map Prod.fst :=
      Multiset.mem_coe.mp (Multiset.mem_of_le hle (Multiset.mem_coe.mpr hm))
    have hmem := hfaithful.broadcast p hp m hm
    exact ⟨hmem, broadcast_of_mem h₀ h hmem⟩

set_option maxRecDepth 4000 in
theorem handed_out_once_shared : ∃ (w : Cluster ℕ ℕ ℕ Playback)
    (tr : List (Taken (Cluster ℕ ℕ ℕ Playback) (Move (NodeId ℕ ℕ) (Input ℕ ℕ ℕ)))),
      Run (Network.step protocol {host 0, host 1}) fresh tr w ∧
      (w.node (host 1)).handedOut = [⟨⟨host 0, 0, 1000⟩, 7⟩] ∧
      ⟨⟨host 0, 0, 1000⟩, 7⟩ ∈ broadcasts {host 0, host 1} tr ∧
      ∃ e ∈ tr, ∃ clock, e.input = .call (host 0) (.broadcast 7 clock) := by
  have hrun : follow (Network.step protocol {host 0, host 1}) fresh shared = .ok _ := rfl
  have hmoves := Run.inputs_of_follow (C := fun mv => Undisturbed mv) shared hrun (by decide)
  have hout := (handed_out_once (p := host 1) (fun p _ => new_fresh p) rfl
    (Run.of_follow shared hrun) (fun e he => native_of_undisturbed (hmoves e he)) (by decide)).2
  obtain ⟨hmem, _, hinput⟩ := hout _ List.mem_cons_self
  exact ⟨_, _, Run.of_follow shared hrun, rfl, hmem, hinput⟩

lemma holds_of_reachable
    (h₀ : ∀ p ∈ ids, Session.new p (rng p) (draws p) (choices p) = .ok (w₀.node p))
    (hf₀ : w₀.flight = []) (h : Run (Network.step protocol ids) w₀ tr w) {G : SimpleGraph ids}
    (hlinks : ∀ a b : ids, G.Adj a b → b.1 ∈ (w.node a).node.hyparviewNode.activeView ∧
      ∀ e ∈ tr, Reliable a.1 b e.before e.input ∧ ¬ Cut ids e.before a b e.input)
    (hf : w.flight = []) (hq : ∀ p ∈ ids, Quiet (w.node p))
    (hwaiting : ∀ p ∈ ids, (w.plumtree p).missings.waiting = 0) {a b : ids} (hab : G.Reachable a b)
    {i : MessageId K A} (hi : (w.plumtree a).Holds i) : (w.plumtree b).Holds i := by
  obtain ⟨walk⟩ := hab
  induction walk with
  | nil => exact hi
  | @cons a c b hadj _ ih =>
    refine ih ?_
    obtain ⟨hview, hmoves⟩ := hlinks a c hadj
    have hback := (hlinks c a hadj.symm).2
    have hw : Sharing ids a c w := h.invariant_of
      (C := fun e => Reliable a.1 c e.before e.input ∧
        ¬ Cut ids e.before a c e.input ∧ ¬ Cut ids e.before c a e.input)
      (fun t mv u hs ht hc => hs.step a.2 c.2 ht hc.1 hc.2) (sharing_of_new h₀ hf₀ a.2 c.2)
      fun e he => ⟨(hmoves e he).1, (hmoves e he).2, (hback e he).2⟩
    have hlink : c.1 ∈ (w.plumtree a).neighbours := by
      have hagreed := (hw.sound.agreeing a a.2).coherent.agreed
      rw [(hq a a.2).1, Hyparview.replay_nil] at hagreed
      rw [plumtree, Option.some.inj hagreed]
      exact List.mem_toFinset.mpr hview
    exact hw.forth.at_rest a.2 c.2 hf hq (hwaiting c c.2) hlink hi

lemma delivered_perm
    (h₀ : ∀ p ∈ ids, Session.new p (rng p) (draws p) (choices p) = .ok (w₀.node p))
    (hf₀ : w₀.flight = []) (h : Run (Network.step protocol ids) w₀ tr w)
    (hnative : ∀ e ∈ tr, ∀ p i, e.input = .call p i → i.Native) {G : SimpleGraph ids}
    (hG : G.Connected)
    (hlinks : ∀ a b : ids, G.Adj a b → b.1 ∈ (w.node a).node.hyparviewNode.activeView ∧
      ∀ e ∈ tr, Reliable a.1 b e.before e.input ∧ ¬ Cut ids e.before a b e.input)
    (hf : w.flight = []) (hq : ∀ p ∈ ids, Quiet (w.node p))
    (hwaiting : ∀ p ∈ ids, (w.plumtree p).missings.waiting = 0) (hp : p ∈ ids) :
    ((w.node p).delivered.map Prod.fst).Perm (broadcasts ids tr) := by
  have hfaithful := faithful_of_run h₀ hf₀ h hnative
  have hnodup := (posted_of_run h₀ h).nodup
  have hall : ∀ m ∈ broadcasts ids tr, m ∈ (w.node p).delivered.map Prod.fst := by
    intro m hm
    obtain ⟨q, hq', hh⟩ := hfaithful.held m hm
    obtain ⟨x, hx⟩ := holds_of_reachable h₀ hf₀ h hlinks hf hq hwaiting
      (hG.preconnected ⟨q, hq'⟩ ⟨p, hp⟩) hh
    have hlog := hfaithful.stored p hp (hq p hp).2.1 m.id x hx
    -- the broadcast of this identifier is this message
    have hsame : (⟨m.id, x⟩ : PlumtreeAppMessage K A M) = m :=
      List.inj_on_of_nodup_map hnodup (hfaithful.broadcast p hp _ hlog) hm rfl
    exact hsame ▸ hlog
  apply (List.perm_ext_iff_of_nodup (hfaithful.nodup p hp).of_map hnodup.of_map).mpr
  exact fun m => ⟨hfaithful.broadcast p hp m, hall m⟩

lemma kept_of_perm
    (h₀ : ∀ p ∈ ids, Session.new p (rng p) (draws p) (choices p) = .ok (w₀.node p))
    (h : Run (Network.step protocol ids) w₀ tr w) (hp : p ∈ ids)
    (hperm : ((w.node p).delivered.map Prod.fst).Perm (broadcasts ids tr))
    (hstamps : ((broadcasts ids tr).map stamp).Nodup) :
    (↑(w.node p).handedOut + (w.node p).shelf.pending : Multiset (PlumtreeAppMessage K A M)) =
      ↑(broadcasts ids tr) := by
  have hkept := ((posted_of_run h₀ h).kept p hp).eq (((hperm.map stamp).nodup_iff).mpr hstamps)
  exact hkept.trans (Multiset.coe_eq_coe.mpr hperm)

/-- At rest, every node has put into its buffer what the applications broadcast, and each message
once, if reliable links that leave no announcement without an answer connect the nodes. If no two
of the messages have one timestamp, each is handed out or waits in the buffer. -/
theorem broadcasts_reach_all
    (h₀ : ∀ p ∈ ids, Session.new p (rng p) (draws p) (choices p) = .ok (w₀.node p))
    (hf₀ : w₀.flight = []) (h : Run (Network.step protocol ids) w₀ tr w)
    (hnative : ∀ e ∈ tr, ∀ p i, e.input = .call p i → i.Native) {G : SimpleGraph ids}
    (hG : G.Connected)
    (hlinks : ∀ a b : ids, G.Adj a b → b.1 ∈ (w.node a).node.hyparviewNode.activeView ∧
      ∀ e ∈ tr, Reliable a.1 b e.before e.input ∧ ¬ Cut ids e.before a b e.input)
    (hf : w.flight = []) (hq : ∀ p ∈ ids, Quiet (w.node p))
    (hwaiting : ∀ p ∈ ids, (w.plumtree p).missings.waiting = 0) (hp : p ∈ ids) :
    ((w.node p).delivered.map Prod.fst).Perm (broadcasts ids tr) ∧
      (((broadcasts ids tr).map stamp).Nodup →
        (↑(w.node p).handedOut + (w.node p).shelf.pending : Multiset (PlumtreeAppMessage K A M)) =
          ↑(broadcasts ids tr)) := by
  have hperm := delivered_perm h₀ hf₀ h hnative hG hlinks hf hq hwaiting hp
  exact ⟨hperm, kept_of_perm h₀ h hp hperm⟩

set_option maxRecDepth 4000 in
theorem broadcasts_reach_all_shared : ∃ (w : Cluster ℕ ℕ ℕ Playback)
    (tr : List (Taken (Cluster ℕ ℕ ℕ Playback) (Move (NodeId ℕ ℕ) (Input ℕ ℕ ℕ)))),
      Run (Network.step protocol {host 0, host 1}) fresh tr w ∧
      broadcasts {host 0, host 1} tr = [⟨⟨host 0, 0, 1000⟩, 7⟩] ∧
      (↑(w.node (host 1)).handedOut + (w.node (host 1)).shelf.pending :
        Multiset (PlumtreeAppMessage ℕ ℕ ℕ)) = ↑(broadcasts {host 0, host 1} tr) := by
  have hrun : follow (Network.step protocol {host 0, host 1}) fresh shared = .ok _ := rfl
  have hmoves := Run.inputs_of_follow (C := fun mv => Undisturbed mv) shared hrun (by decide)
  refine ⟨_, _, Run.of_follow shared hrun, rfl, ?_⟩
  refine (broadcasts_reach_all (p := host 1) (G := ⊤) (fun p _ => new_fresh p) rfl
    (Run.of_follow shared hrun) (fun e he => native_of_undisturbed (hmoves e he)) ?_ ?_ ?_ ?_ ?_
    ?_).2 ?_
  · have : Nonempty ({host 0, host 1} : Finset (NodeId ℕ ℕ)) := ⟨⟨host 0, by decide⟩⟩
    exact SimpleGraph.connected_top
  · intro a b hadj
    refine ⟨?_, fun e he => ⟨reliable_of_undisturbed (hmoves e he), ?_⟩⟩
    · revert a b
      decide
    · revert a b e
      decide
  · rfl
  · decide
  · decide
  · decide
  · decide

/-- The step puts no message into the buffer of the node that is earlier than the last that left. -/
def Timely (p : NodeId K A) (e : Taken (Cluster K A M R) (Move (NodeId K A) (Input K A M))) :
    Prop :=
  ∀ i, e.input = .call p i → ∀ m ∈ (e.before.node p).buffered i,
    ∀ back ∈ (e.before.node p).node.processedMessages.getLast?, back ≤ stamp m

omit [Rng R] in
lemma timely_call {i : Input K A M} : Timely p ⟨w, .call a i, w'⟩ ↔
    (a = p → ∀ m ∈ (w.node p).buffered i,
      ∀ back ∈ (w.node p).node.processedMessages.getLast?, back ≤ stamp m) := by
  constructor
  · rintro h rfl
    exact h i rfl
  · rintro h _ hi
    cases hi
    exact h rfl

instance (p : NodeId K A) :
    (e : Taken (Cluster K A M R) (Move (NodeId K A) (Input K A M))) → Decidable (Timely p e)
  | ⟨_, .call _ _, _⟩ => decidable_of_iff _ timely_call.symm
  | ⟨_, .poll _, _⟩ | ⟨_, .deliver _, _⟩ | ⟨_, .duplicate _, _⟩ | ⟨_, .lose _, _⟩ =>
    .isTrue (by simp [Timely])

end Cluster

end QuicP2p.P2p
