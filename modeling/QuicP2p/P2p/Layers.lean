import QuicP2p.P2p.Cluster
import QuicP2p.Library.Hosting

/-! Peer-to-peer nodes as the hosts of their two protocols, whose messages they hold back before
they send and handle them. -/

namespace QuicP2p.P2p

open Library

variable {K A M R : Type}

namespace Session

/-- The messages that the server has still to send and those that wait to be handled, each with the
node it is for. -/
def held (s : Session K A M R) : List (NodeId K A × P2pNodeProtocolMessage K A M) :=
  s.node.server.filterMap (ServerCall.mail s.node.id) ++ s.node.messageRx.map (s.node.id, ·)

variable {s t : Session K A M R} {m : P2pNodeProtocolMessage K A M}

lemma held_congr (hid : t.node.id = s.node.id) (hs : t.node.server = s.node.server)
    (hr : t.node.messageRx = s.node.messageRx) : t.held = s.held := by
  rw [held, held, hid, hs, hr]

lemma held_arrive (s : Session K A M R) (m : P2pNodeProtocolMessage K A M) :
    ({ s with node := s.node.arrive m } : Session K A M R).held = s.held ++ [(s.node.id, m)] := by
  simp [held, P2PNode.arrive, P2PNode.id]

lemma held_calls {calls : List (ServerCall K A M)} (hid : t.node.id = s.node.id)
    (hs : t.node.server = s.node.server ++ calls) (hr : t.node.messageRx = s.node.messageRx) :
    t.held.Perm (s.held ++ calls.filterMap (ServerCall.mail s.node.id)) := by
  rw [held, held, hid, hs, hr, List.filterMap_append, List.append_assoc, List.append_assoc]
  exact List.perm_append_comm.append_left _

lemma held_taken {rest : List (P2pNodeProtocolMessage K A M)} (hm : s.node.messageRx = m :: rest)
    (hid : t.node.id = s.node.id) (hs : t.node.server = s.node.server)
    (hr : t.node.messageRx = rest) : ((s.node.id, m) :: t.held).Perm s.held := by
  rw [held, held, hid, hs, hr, hm, List.map_cons]
  exact List.perm_middle.symm

/-- The server sends a message that the node holds, or hands it back. -/
lemma held_post (s : Session K A M R) : (s.post.1.toList ++ s.post.2.held).Perm s.held := by
  unfold post
  split
  next hserver => exact .refl _
  next c server hserver =>
    have hheld : s.held = (c.mail s.node.id).toList ++
        (server.filterMap (ServerCall.mail s.node.id) ++
          s.node.messageRx.map (s.node.id, ·)) := by
      rw [held, hserver, filterMap_cons_toList, List.append_assoc]
    rw [hheld]
    cases c with
    | notifySelfDisconnect x =>
      change (server.filterMap (ServerCall.mail s.node.id) ++
        (s.node.messageRx ++ [P2PNode.lost x]).map (s.node.id, ·)).Perm _
      rw [List.map_append, ← List.append_assoc]
      exact List.perm_append_singleton _ _
    | _ => exact .refl _

end Session

/-- A protocol as the guest of the sessions, with the messages that carry its own. -/
def hosting {S N : Type} (guest : P2PNode K A M R → S)
    (carried : P2pNodeProtocolMessage K A M → Option N) :
    Hosting (NodeId K A) S N (Session K A M R) (P2pNodeProtocolMessage K A M) where
  guest s := guest s.node
  carried := carried
  stored s := ↑(s.held.filterMap (fun e => (carried e.2).map (e.1, ·)))

section Hosting

variable {S N : Type} {guest : P2PNode K A M R → S}
  {carried : P2pNodeProtocolMessage K A M → Option N} {s t : Session K A M R}

/-- The messages of the guest that calls of the node `id` send. -/
def carriedBy (carried : P2pNodeProtocolMessage K A M → Option N) (id : NodeId K A)
    (calls : List (ServerCall K A M)) : List (NodeId K A × N) :=
  (calls.filterMap (ServerCall.mail id)).filterMap (fun e => (carried e.2).map (e.1, ·))

lemma stored_eq (s : Session K A M R) : (hosting guest carried).stored s =
    ↑(s.held.filterMap (fun e => (carried e.2).map (e.1, ·))) := rfl

variable (guest carried)

lemma stored_congr (hid : t.node.id = s.node.id) (hs : t.node.server = s.node.server)
    (hr : t.node.messageRx = s.node.messageRx) :
    (hosting guest carried).stored t = (hosting guest carried).stored s := by
  rw [stored_eq, stored_eq, Session.held_congr hid hs hr]

lemma stored_calls {c : List (ServerCall K A M)} (hid : t.node.id = s.node.id)
    (hs : t.node.server = s.node.server ++ c) (hr : t.node.messageRx = s.node.messageRx) :
    (hosting guest carried).stored t =
      (hosting guest carried).stored s + ↑(carriedBy carried s.node.id c) := by
  have hperm := (Session.held_calls hid hs hr).filterMap (fun e => (carried e.2).map (e.1, ·))
  rw [List.filterMap_append] at hperm
  exact Multiset.coe_eq_coe.mpr hperm

lemma stored_taken {m : P2pNodeProtocolMessage K A M} {rest : List (P2pNodeProtocolMessage K A M)}
    (hm : s.node.messageRx = m :: rest) (hid : t.node.id = s.node.id)
    (hs : t.node.server = s.node.server) (hr : t.node.messageRx = rest) :
    ↑((carried m).map (s.node.id, ·)).toList + (hosting guest carried).stored t =
      (hosting guest carried).stored s := by
  have hperm := (Session.held_taken hm hid hs hr).filterMap (fun e => (carried e.2).map (e.1, ·))
  rw [filterMap_cons_toList] at hperm
  exact Multiset.coe_eq_coe.mpr hperm

lemma stored_arrive (s : Session K A M R) (m : P2pNodeProtocolMessage K A M) :
    (hosting guest carried).stored { s with node := s.node.arrive m } =
      (hosting guest carried).stored s + ↑((carried m).map (s.node.id, ·)).toList := by
  rw [stored_eq, Session.held_arrive, List.filterMap_append, ← Multiset.coe_add, stored_eq,
    filterMap_cons_toList, List.filterMap_nil, List.append_nil]

lemma stored_post (s : Session K A M R) :
    ↑(s.post.1.bind (hosting guest carried).mail).toList +
      (hosting guest carried).stored s.post.2 = (hosting guest carried).stored s := by
  have hperm := s.held_post.filterMap (fun e => (carried e.2).map (e.1, ·))
  rw [List.filterMap_append, filterMap_toList] at hperm
  exact Multiset.coe_eq_coe.mpr hperm

variable {guest carried}

lemma mem_stored {d : NodeId K A} {m : N} : (d, m) ∈ (hosting guest carried).stored s ↔
    ∃ n, (d, n) ∈ s.held ∧ carried n = some m := by
  rw [stored_eq, Multiset.mem_coe, List.mem_filterMap]
  constructor
  · rintro ⟨⟨d', n⟩, hn, hm⟩
    obtain ⟨m', hm, he⟩ := Option.map_eq_some_iff.mp hm
    cases he
    exact ⟨n, hn, hm⟩
  · rintro ⟨n, hn, hm⟩
    exact ⟨(d, n), hn, by rw [hm]; rfl⟩

lemma mem_waiting_hosting [DecidableEq K] [DecidableEq A] {ids : Finset (NodeId K A)}
    {w : Network (NodeId K A) (Session K A M R) (P2pNodeProtocolMessage K A M)} {d : NodeId K A}
    {m : N} : (d, m) ∈ (hosting guest carried).waiting ids w ↔
      ∃ n, carried n = some m ∧ ((d, n) ∈ w.flight ∨ ∃ p ∈ ids, (d, n) ∈ (w.node p).held) := by
  rw [Hosting.mem_waiting]
  simp only [mem_stored]
  constructor
  · rintro (⟨n, hn, hm⟩ | ⟨p, hp, n, hn, hm⟩)
    · exact ⟨n, hm, .inl hn⟩
    · exact ⟨n, hm, .inr ⟨p, hp, hn⟩⟩
  · rintro ⟨n, hm, hn | ⟨p, hp, hn⟩⟩
    · exact .inl ⟨n, hn, hm⟩
    · exact .inr ⟨p, hp, n, hn, hm⟩

end Hosting

variable [DecidableEq K] [DecidableEq A] [Rng R]

namespace P2PNode

variable {n m : P2PNode K A M R}

lemma handleHyparviewAction_kept {a : HyparviewAction K A}
    (h : n.handleHyparviewAction a = .ok m) :
    m.messageRx = n.messageRx ∧ m.messageSeqno = n.messageSeqno := by
  cases a with
  | send d msg =>
    cases h
    exact ⟨rfl, rfl⟩
  | disconnect x =>
    obtain ⟨_, _, h⟩ := bind_eq_ok.mp h
    cases h
    exact ⟨rfl, rfl⟩
  | notify e =>
    cases e with
    | neighborUp x =>
      cases h
      exact ⟨rfl, rfl⟩
    | neighborDown x =>
      obtain ⟨_, _, h⟩ := bind_eq_ok.mp h
      cases h
      exact ⟨rfl, rfl⟩

omit [DecidableEq K] [DecidableEq A] [Rng R] in
/-- The execution of an action of Plumtree makes its call, and leaves the protocols alone. -/
lemma handlePlumtreeAction_ok {receive now : WallClock} {a : PlumtreeAction K A M}
    {r : Option (PlumtreeAppMessage K A M) × P2PNode K A M R}
    (h : n.handlePlumtreeAction receive now a = .ok r) :
    r.2.hyparviewNode = n.hyparviewNode ∧ r.2.plumtreeNode = n.plumtreeNode ∧
      r.2.server = n.server ++ plumtreeCall a ∧ r.2.messageRx = n.messageRx ∧
      r.2.messageSeqno = n.messageSeqno := by
  cases a with
  | send d msg =>
    cases h
    exact ⟨rfl, rfl, rfl, rfl, rfl⟩
  | deliver m =>
    obtain ⟨⟨_, _, hr⟩, _⟩ := (Session.processSequentialMessages_spec _ _).of_ok h
    rw [hr]
    exact ⟨rfl, rfl, (List.append_nil _).symm, rfl, rfl⟩

end P2PNode

/-- A session of the node `p`, whose two protocols agree. -/
structure Steady (p : NodeId K A) (s : Session K A M R) : Prop where
  agreeing : s.Agreeing
  within : ∃ rng, Session.Within (Hyparview.Node.withOptions p rng {}) s.node.hyparviewNode

namespace Steady

variable {p : NodeId K A} {s t : Session K A M R} {i : Input K A M}

lemma id_eq (h : Steady p s) : s.node.id = p := by
  obtain ⟨rng, tr, hr⟩ := h.within
  rw [P2PNode.id, h.agreeing.coherent.id_eq]
  exact (Hyparview.Node.run_spec (by decide) (by decide) hr).2.1

lemma step (h : Steady p s) (hs : s.step i = .ok t) : Steady p t := by
  obtain ⟨rng, hw⟩ := h.within
  exact ⟨h.agreeing.step hs, rng, hw.step hs⟩

lemma congr (h : Steady p s) (hh : t.node.hyparviewNode = s.node.hyparviewNode)
    (hp : t.node.plumtreeNode = s.node.plumtreeNode) (hs : t.stage = s.stage) : Steady p t := by
  refine ⟨h.agreeing.congr hh (h.agreeing.coherent.congr hh hp) (hs ▸ id), ?_⟩
  rw [hh]
  exact h.within

lemma new {rng : R} {draws : Draws} {choices : List ℕ}
    (h : Session.new p rng draws choices = .ok s) : Steady p s := by
  refine ⟨Session.new_agreeing h, rng, [], ?_⟩
  obtain ⟨_, _, _, rfl⟩ := Session.new_ok h
  exact .start

end Steady

namespace Cluster

variable {ids : Finset (NodeId K A)} {w w₀ w' : Cluster K A M R} {rng : NodeId K A → R}
  {draws : NodeId K A → Draws} {choices : NodeId K A → List ℕ}
  {mv : Move (NodeId K A) (Input K A M)}
  {tr : List (Taken (Cluster K A M R) (Move (NodeId K A) (Input K A M)))}

lemma steady_of_step (h : ∀ p ∈ ids, Steady p (w.node p))
    (hs : Network.step protocol ids w mv = .ok w') : ∀ p ∈ ids, Steady p (w'.node p) := by
  cases Network.change_of_step hs with
  | idle => exact h
  | called hp hc => exact Network.forall_update h ((h _ hp).step hc)
  | @polled p out s hp hc =>
    have hpost : (w.node p).post = (out, s) := Except.ok.inj hc
    have hposted := (w.node p).post_spec
    rw [hpost] at hposted
    exact Network.forall_update h
      ((h p hp).congr hposted.hyparview_eq hposted.plumtree_eq hposted.stage_eq)
  | @delivered i d m s rest hd _ hc =>
    exact Network.forall_update h ((h d hd).step (i := .arrive m) hc)
  | @duplicated i d m s hd _ hc =>
    exact Network.forall_update h ((h d hd).step (i := .arrive m) hc)
  | discarded => exact h
  | lost => exact h

lemma steady_of_run
    (h₀ : ∀ p ∈ ids, Session.new p (rng p) (draws p) (choices p) = .ok (w₀.node p))
    (h : Run (Network.step protocol ids) w₀ tr w) : ∀ p ∈ ids, Steady p (w.node p) := by
  apply h.invariant (P := fun w => ∀ p ∈ ids, Steady p (w.node p))
  · intro w mv w' hw hs
    exact steady_of_step hw hs
  · exact fun p hp => .new (h₀ p hp)

end Cluster

end QuicP2p.P2p
