import QuicP2p.P2p.Turn

/-! Networks of peer-to-peer nodes: each message travels on a stream of its own. -/

namespace QuicP2p.P2p

open Library

variable {K A M R : Type}

abbrev Cluster (K A M R : Type) :=
  Network (NodeId K A) (Session K A M R) (P2pNodeProtocolMessage K A M)

namespace Cluster

variable [DecidableEq K] [DecidableEq A] [Rng R]

def protocol : Protocol Stop (NodeId K A) (Session K A M R) (P2pNodeProtocolMessage K A M)
    (Input K A M) where
  call := Session.step
  receive s m := s.step (.arrive m)
  poll s := .ok s.post

abbrev plumtree (w : Cluster K A M R) (p : NodeId K A) : PlumtreeNode K A M :=
  (w.node p).node.plumtreeNode

/-- The message is on its way to the node: it waits to be sent, travels, or waits to be handled. -/
def OnWay (ids : Finset (NodeId K A)) (w : Cluster K A M R) (d : NodeId K A)
    (m : P2pNodeProtocolMessage K A M) : Prop :=
  (d, m) ∈ w.flight ∨ (∃ p ∈ ids, (d, m) ∈ (w.node p).outbox) ∨ m ∈ (w.node d).node.messageRx

/-- The move loses no message between the two nodes, and brings a node no message from outside.
Messages to and from other nodes may get lost, and a node may be told that it lost another. -/
def Reliable (a b : NodeId K A) (w : Cluster K A M R) : Move (NodeId K A) (Input K A M) → Prop
  | .call _ (.arrive m) => ∃ x, m = P2PNode.lost x
  | .lose i => ∀ d m, w.flight[i]? = some (d, m) →
    ¬ (d = a ∧ m.sender = some b) ∧ ¬ (d = b ∧ m.sender = some a)
  | _ => True

variable {ids : Finset (NodeId K A)} {w w' : Cluster K A M R} {p q d : NodeId K A}
  {mv : Move (NodeId K A) (Input K A M)} {m : P2pNodeProtocolMessage K A M}

/-- No protocol moves. Messages stay on their way, but those that get lost. -/
structure Carried (ids : Finset (NodeId K A)) (w : Cluster K A M R)
    (mv : Move (NodeId K A) (Input K A M)) (w' : Cluster K A M R) : Prop where
  hyparview_eq : ∀ q, (w'.node q).node.hyparviewNode = (w.node q).node.hyparviewNode
  plumtree_eq : ∀ q, (w'.node q).node.plumtreeNode = (w.node q).node.plumtreeNode
  seqno_eq : ∀ q, (w'.node q).node.messageSeqno = (w.node q).node.messageSeqno
  stage_eq : ∀ q, (w'.node q).stage = (w.node q).stage
  kept : ∀ d ∈ ids, ∀ m, OnWay ids w d m →
    OnWay ids w' d m ∨ ∃ i, mv = .lose i ∧ w.flight[i]? = some (d, m)
  fresh : ∀ d m, OnWay ids w' d m → OnWay ids w d m

/-- What a step of the network comes to. -/
inductive Step (ids : Finset (NodeId K A)) (w : Cluster K A M R) :
    Move (NodeId K A) (Input K A M) → Cluster K A M R → Prop
  | turned {p : NodeId K A} {i : Input K A M} {t : Session K A M R} (hp : p ∈ ids)
      (hs : (w.node p).step i = .ok t) : Step ids w (.call p i) (w.update p t)
  | carried {mv : Move (NodeId K A) (Input K A M)} {w' : Cluster K A M R}
      (h : Carried ids w mv w') : Step ids w mv w'

omit [Rng R] in
/-- One member changes, but neither of its protocols does. -/
lemma carried_update {s : Session K A M R} {f : List (NodeId K A × P2pNodeProtocolMessage K A M)}
    (hh : s.node.hyparviewNode = (w.node p).node.hyparviewNode)
    (hp : s.node.plumtreeNode = (w.node p).node.plumtreeNode)
    (hseqno : s.node.messageSeqno = (w.node p).node.messageSeqno)
    (hstage : s.stage = (w.node p).stage)
    (hkept : ∀ d ∈ ids, ∀ m, OnWay ids w d m → OnWay ids { w.update p s with flight := f } d m)
    (hfresh : ∀ d m, OnWay ids { w.update p s with flight := f } d m → OnWay ids w d m) :
    Carried ids w mv { w.update p s with flight := f } := by
  refine ⟨fun q => ?_, fun q => ?_, fun q => ?_, fun q => ?_, fun d hd m h => .inl (hkept d hd m h),
    hfresh⟩
  all_goals
    dsimp only
    rw [Network.node_update]
    split
    next hq => rw [hq]; assumption
    next => rfl

omit [Rng R] in
lemma carried_arrive {f : List (NodeId K A × P2pNodeProtocolMessage K A M)}
    (hd : (d, m) ∈ w.flight) (hf : ∀ e ∈ w.flight, e ∈ f ∨ e = (d, m))
    (hsub : ∀ e ∈ f, e ∈ w.flight) :
    Carried ids w mv { w.update d { w.node d with node := (w.node d).node.arrive m } with
      flight := f } := by
  have hnode : ∀ q, ((w.update d { w.node d with
      node := (w.node d).node.arrive m }).node q).outbox = (w.node q).outbox := by
    intro q
    rw [Network.node_update]
    split
    next hq => rw [hq]; rfl
    next => rfl
  have hrx : ∀ q m', m' ∈ ((w.update d { w.node d with
      node := (w.node d).node.arrive m }).node q).node.messageRx ↔
      m' ∈ (w.node q).node.messageRx ∨ q = d ∧ m' = m := by
    intro q m'
    rw [Network.node_update]
    split
    next hq => simp [hq, P2PNode.arrive]
    next hq => simp [hq]
  refine carried_update rfl rfl rfl rfl (fun q _ m' h => ?_) fun q m' h => ?_
  · rcases h with h | ⟨r, hr, h⟩ | h
    · refine (hf _ h).imp_right fun he => .inr ((hrx q m').mpr (.inr ?_))
      cases he
      exact ⟨rfl, rfl⟩
    · exact .inr (.inl ⟨r, hr, (hnode r).symm ▸ h⟩)
    · exact .inr (.inr ((hrx q m').mpr (.inl h)))
  · rcases h with h | ⟨r, hr, h⟩ | h
    · exact .inl (hsub _ h)
    · exact .inr (.inl ⟨r, hr, hnode r ▸ h⟩)
    · rcases (hrx q m').mp h with h | ⟨rfl, rfl⟩
      · exact .inr (.inr h)
      · exact .inl hd

omit [Rng R] in
lemma carried_post (hid : (w.node p).node.id = p) (hp : p ∈ ids) :
    Carried ids w mv { w.update p (w.node p).post.2 with
      flight := w.flight ++ (w.node p).post.1.toList } := by
  have hpost := (w.node p).post_spec
  have hnode : ∀ q, q ≠ p → (w.update p (w.node p).post.2).node q = w.node q :=
    fun q hq => Network.node_update_of_ne w hq _
  have hself := Network.node_update_self w p (w.node p).post.2
  refine carried_update hpost.hyparview_eq hpost.plumtree_eq hpost.seqno_eq hpost.stage_eq
    (fun d _ m h => ?_) fun d m h => ?_
  · rcases h with h | ⟨r, hr, h⟩ | h
    · exact .inl (List.mem_append_left _ h)
    · by_cases hrp : r = p
      · subst hrp
        rcases hpost.kept _ h with h | h | ⟨hd, h⟩
        · exact .inr (.inl ⟨r, hr, by rwa [← hself] at h⟩)
        · exact .inl (List.mem_append_right _ (by simp [h]))
        · obtain rfl : d = r := hd.trans hid
          exact .inr (.inr (by rwa [← hself] at h))
      · exact .inr (.inl ⟨r, hr, by rwa [← hnode r hrp] at h⟩)
    · by_cases hdp : d = p
      · subst hdp
        have h := hpost.received _ h
        exact .inr (.inr (by rwa [← hself] at h))
      · exact .inr (.inr (by rwa [← hnode d hdp] at h))
  · rcases h with h | ⟨r, hr, h⟩ | h
    · rcases List.mem_append.mp h with h | h
      · exact .inl h
      · exact .inr (.inl ⟨p, hp, hpost.fresh _ (.inr (by simpa using h))⟩)
    · by_cases hrp : r = p
      · subst hrp
        exact .inr (.inl ⟨r, hr, hpost.fresh _ (.inl (by rwa [← hself]))⟩)
      · exact .inr (.inl ⟨r, hr, by rwa [← hnode r hrp]⟩)
    · by_cases hdp : d = p
      · subst hdp
        rcases hpost.told m (by rwa [← hself]) with h | h
        · exact .inr (.inr h)
        · rw [hid] at h
          exact .inr (.inl ⟨d, hp, h⟩)
      · exact .inr (.inr (by rwa [← hnode d hdp]))

lemma step_of_step (hid : ∀ p ∈ ids, (w.node p).node.id = p)
    (hs : Network.step protocol ids w mv = .ok w') : Step ids w mv w' := by
  cases Network.change_of_step hs with
  | idle => exact .carried ⟨fun _ => rfl, fun _ => rfl, fun _ => rfl, fun _ => rfl,
      fun _ _ _ h => .inl h, fun _ _ h => h⟩
  | called hp hc => exact .turned hp hc
  | @polled p out s hp hc =>
    have hpost : (w.node p).post = (out, s) := Except.ok.inj hc
    obtain rfl : (w.node p).post.1 = out := congrArg Prod.fst hpost
    obtain rfl : (w.node p).post.2 = s := congrArg Prod.snd hpost
    exact .carried (carried_post (hid p hp) hp)
  | @delivered i d m s rest hd hf hc =>
    cases hc
    refine .carried (carried_arrive (hf.mem_iff.mpr List.mem_cons_self) (fun e he => ?_)
      fun e he => ?_)
    · exact (List.mem_cons.mp (hf.mem_iff.mp he)).symm
    · exact hf.mem_iff.mpr (List.mem_cons_of_mem _ he)
  | @duplicated i d m s hd hm hc =>
    cases hc
    exact .carried (carried_arrive hm (fun e he => .inl he) fun e he => he)
  | @discarded i d m rest hd hf =>
    refine .carried ⟨fun _ => rfl, fun _ => rfl, fun _ => rfl, fun _ => rfl,
      fun d' hd' m' h => .inl ?_, fun d' m' h => ?_⟩
    · refine h.imp_left fun h => ?_
      rcases List.mem_cons.mp (hf.mem_iff.mp h) with he | h
      · cases he
        exact absurd hd' hd
      · exact h
    · exact h.imp_left fun h => hf.mem_iff.mpr (List.mem_cons_of_mem _ h)
  | @lost i rest hf =>
    cases hs
    refine .carried ⟨fun _ => rfl, fun _ => rfl, fun _ => rfl, fun _ => rfl, fun d' _ m' h => ?_,
      fun d' m' h => h.imp_left hf.mem⟩
    by_cases hi : w.flight[i]? = some (d', m')
    · exact .inr ⟨i, rfl, hi⟩
    · refine .inl (h.imp_left fun h => ?_)
      obtain ⟨j, hj⟩ := List.mem_iff_getElem?.mp h
      refine List.mem_eraseIdx_iff_getElem?.mpr ⟨j, ?_, hj⟩
      rintro rfl
      exact hi hj

end Cluster

end QuicP2p.P2p
