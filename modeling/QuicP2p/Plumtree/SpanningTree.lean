import QuicP2p.Plumtree.Dissemination
import QuicP2p.Library.Flood

/-! The links that stay eager after one broadcast form a spanning tree. -/

namespace QuicP2p.Plumtree

open Library

variable {N I P : Type} [DecidableEq N] [DecidableEq I]

def ProtocolMessage.gossipFrom (p : N) : ProtocolMessage N I P → Bool
  | .gossip g => g.sender = p
  | _ => false

/-- The moves of a network in which every message arrives once and nothing else happens. -/
def Orderly : Move N (Call N I P) → Prop
  | .call _ (.tick _) => True
  | .call _ (.reorder _ _) => True
  | .call _ (.optionsMut _) => True
  | .call _ _ => False
  | .poll _ => True
  | .deliver _ => True
  | _ => False

/-- The message carries a payload from `p` to `q`. -/
def Crosses (p q : N) (e : N × ProtocolMessage N I P) : Prop := e.1 = q ∧ e.2.gossipFrom p

instance (p q : N) (e : N × ProtocolMessage N I P) : Decidable (Crosses p q e) :=
  inferInstanceAs (Decidable (_ ∧ _))

omit [DecidableEq I] in
lemma Crosses.eq {p q d : N} {m : ProtocolMessage N I P} (h : Crosses p q (d, m)) :
    p = m.sender ∧ q = d := by
  obtain ⟨hd, hm⟩ := h
  cases m with
  | gossip g => exact ⟨(of_decide_eq_true hm).symm, hd.symm⟩
  | _ => simp [ProtocolMessage.gossipFrom] at hm

namespace Node

/-- The node has heard of no message that it lacks. -/
structure Calm (n : Node N I P) : Prop where
  valid : n.missings.Valid
  unrecorded : ∀ i, ¬ n.missings.Recorded i

/-- The nodes differ in their queues, clocks and orders of iteration at most. -/
structure Alike (n m : Node N I P) : Prop where
  id_eq : m.id = n.id
  messages : ∀ i, m.messages.get i = n.messages.get i
  eager : ∀ x, x ∈ m.eagerPushPeers ↔ x ∈ n.eagerPushPeers
  lazy : ∀ x, x ∈ m.lazyPushPeers ↔ x ∈ n.lazyPushPeers
  calm : m.Calm

variable {n m : Node N I P} {g : GossipMessage N I P}

omit [DecidableEq N] in
lemma Calm.waiting (h : n.Calm) : n.missings.waiting = 0 := by
  refine Multiset.eq_zero_of_forall_notMem fun a ha => ?_
  exact h.unrecorded _ (MissingMessages.waiting_recorded ha)

omit [DecidableEq N] in
lemma Calm.optimizing (h : n.Calm) (g : GossipMessage N I P) : n.optimizing g = [] := by
  have hnone : n.missings.getIhave g.message.id = none := by
    rw [MissingMessages.getIhave, Option.map_eq_none_iff]
    by_contra hne
    obtain ⟨e, he⟩ := Option.ne_none_iff_exists'.mp hne
    exact h.unrecorded _ ⟨e, he⟩
  simp only [Node.optimizing, hnone]

lemma pollAction_alike (h : n.Calm) : Yields n.pollAction (fun r =>
    r.1 = n.actions.head? ∧ Alike n r.2 ∧ r.2.actions = n.actions.tail) := by
  refine (handleExpiration_spec h.valid).bind ?_
  rintro m ⟨⟨spent, hm, _⟩, _⟩
  have hw := hm.waiting_eq
  rw [h.waiting, eq_comm, add_eq_zero, Multiset.coe_eq_zero] at hw
  obtain ⟨rfl, _⟩ := hw
  have hacts : m.actions = n.actions := by simpa [grafts] using hm.actions_eq
  refine .ok ⟨by rw [hacts], ⟨hm.id_eq, fun i => by rw [hm.messages_eq], ?_, ?_, ⟨hm.valid,
    fun i hi => h.unrecorded i (hm.recorded i hi)⟩⟩, by rw [hacts]⟩
  · simpa using hm.eager
  · simpa using hm.lazy

omit [DecidableEq N] in
lemma Alike.refl (h : n.Calm) : Alike n n :=
  ⟨rfl, fun _ => rfl, fun _ => .rfl, fun _ => .rfl, h⟩

omit [DecidableEq N] in
lemma tick_alike (h : n.Calm) (d : Duration) : Alike n (n.tick d) :=
  ⟨rfl, fun _ => rfl, fun _ => .rfl, fun _ => .rfl, ⟨h.valid, h.unrecorded⟩⟩

omit [DecidableEq N] in
lemma reorder_alike (h : n.Calm) (i j : ℕ) : Alike n (n.reorder i j) :=
  ⟨rfl, fun _ => HashMap.get_reorder, fun _ => HashSet.mem_reorder, fun _ => HashSet.mem_reorder,
    ⟨h.valid, h.unrecorded⟩⟩

omit [DecidableEq N] in
lemma optionsMut_alike (h : n.Calm) (options : NodeOptions) : Alike n (n.optionsMut options) :=
  ⟨rfl, fun _ => rfl, fun _ => .rfl, fun _ => .rfl, ⟨h.valid, h.unrecorded⟩⟩

lemma Alike.neighbours_eq (h : Alike n m) : m.neighbours = n.neighbours := by
  ext x
  rw [mem_neighbours, mem_neighbours, h.eager, h.lazy]

omit [DecidableEq I] in
lemma pushed_outgoing (hl : ∀ x, x ∉ n.lazyPushPeers) : (n.pushed g).filterMap Action.outgoing =
    (n.eagerPushPeers.toList.filter (fun x => x ≠ g.sender)).map
      (fun x => (x, .gossip ⟨n.id, g.message, g.round.saturatingAdd 1⟩)) := by
  have hnil : n.lazyPushPeers.toList = [] := List.eq_nil_iff_forall_not_mem.mpr hl
  rw [pushed, hnil, List.filter_nil, List.map_nil, List.append_nil, List.filterMap_cons_none rfl,
    List.filterMap_map, ← List.filterMap_eq_map]
  rfl

omit [DecidableEq I] in
lemma countP_pushed (hl : ∀ x, x ∉ n.lazyPushPeers) (p q : N) :
    (↑((n.pushed g).filterMap Action.outgoing) :
      Multiset (N × ProtocolMessage N I P)).countP (Crosses p q) =
      if p = n.id ∧ q ∈ n.eagerPushPeers ∧ q ≠ g.sender then 1 else 0 := by
  rw [pushed_outgoing hl, Multiset.coe_countP, List.countP_map]
  by_cases hp : p = n.id
  · have hcount : ((fun e => decide (Crosses p q e)) ∘ fun x =>
        (x, (.gossip ⟨n.id, g.message, g.round.saturatingAdd 1⟩ : ProtocolMessage N I P))) =
        (· == q) := by
      funext x
      simp [Crosses, ProtocolMessage.gossipFrom, hp]
      rfl
    rw [hcount, ← List.count, (n.eagerPushPeers.nodup.filter _).count]
    simp [hp]
  · rw [List.countP_eq_zero.mpr, if_neg fun h => hp h.1]
    intro x _ hx
    exact hp (of_decide_eq_true (of_decide_eq_true hx).2).symm

/-- What the arrival of a payload does to a node whose peers are all eager. -/
lemma handleGossip_first (h : n.Calm) (hg : ¬ n.Holds g.message.id)
    (hl : ∀ x, x ∉ n.lazyPushPeers) (hs : g.sender ∈ n.eagerPushPeers) :
    (n.handleGossip g).Calm ∧ (n.handleGossip g).id = n.id ∧
      (∀ i, (n.handleGossip g).Holds i ↔ n.Holds i ∨ i = g.message.id) ∧
      (∀ x, x ∈ (n.handleGossip g).eagerPushPeers ↔ x ∈ n.eagerPushPeers) ∧
      (∀ x, x ∈ (n.handleGossip g).lazyPushPeers ↔ x ∈ n.lazyPushPeers) ∧
      (n.handleGossip g).queued = n.queued + ↑((n.pushed g).filterMap Action.outgoing) := by
  rw [handleGossip_of_fresh hg, h.optimizing, List.append_nil]
  refine ⟨⟨(MissingMessages.remove_spec h.valid _).1, fun i hi =>
    h.unrecorded i (MissingMessages.recorded_remove.mp hi).2⟩, rfl, ?_, ?_, ?_, ?_⟩
  · intro i
    rw [or_comm]
    exact HashMap.exists_get_insert
  · intro x
    rw [(mem_toEager (n := n)).1]
    exact ⟨fun hx => hx.elim (fun he => he ▸ hs) fun hx => hx, .inr⟩
  · intro x
    simp only [toEager, HashSet.mem_remove]
    exact ⟨fun hx => hx.2, fun hx => absurd hx (hl x)⟩
  · simp [queued, List.filterMap_append]

/-- What a broadcast does to a node whose peers are all eager. -/
lemma broadcastMessage_first (h : n.Calm) (b : Message I P) :
    (n.broadcastMessage b).Calm ∧ (n.broadcastMessage b).id = n.id ∧
      (∀ i, (n.broadcastMessage b).Holds i ↔ n.Holds i ∨ i = b.id) ∧
      (n.broadcastMessage b).eagerPushPeers = n.eagerPushPeers ∧
      (n.broadcastMessage b).lazyPushPeers = n.lazyPushPeers ∧
      (n.broadcastMessage b).queued =
        n.queued + ↑((n.pushed ⟨n.id, b, 0⟩).filterMap Action.outgoing) := by
  rw [broadcastMessage_eq]
  refine ⟨⟨h.valid, h.unrecorded⟩, rfl, ?_, rfl, rfl, ?_⟩
  · intro i
    rw [or_comm]
    exact HashMap.exists_get_insert
  · simp [queued, List.filterMap_append]

/-- The state of the node at `p` before anything is broadcast. -/
structure Quiet (p : N) (n : Node N I P) : Prop where
  calm : n.Calm
  id_eq : n.id = p
  loopless : p ∉ n.neighbours
  unheld : ∀ i, ¬ n.Holds i
  lazy : ∀ x, x ∉ n.lazyPushPeers
  actions : n.actions = []

variable {p : N}

lemma Quiet.alike (h : n.Quiet p) (hm : Alike n m) (ha : m.actions = n.actions) : m.Quiet p where
  calm := hm.calm
  id_eq := hm.id_eq.trans h.id_eq
  loopless := by rw [hm.neighbours_eq]; exact h.loopless
  unheld i := by rw [Holds, hm.messages]; exact h.unheld i
  lazy x := by rw [hm.lazy]; exact h.lazy x
  actions := ha.trans h.actions

lemma withOptions_quiet (p : N) (options : NodeOptions) (choices : List ℕ) :
    (withOptions p options choices : Node N I P).Quiet p where
  calm := ⟨MissingMessages.new_valid choices, fun i hi => by
    simp [withOptions, MissingMessages.Recorded, MissingMessages.new] at hi⟩
  id_eq := rfl
  loopless := by simp [withOptions]
  unheld i := by simp [withOptions, Holds]
  lazy x := by simp [withOptions]
  actions := rfl

lemma Quiet.handleNeighborUp (h : n.Quiet p) (x : N) : (n.handleNeighborUp x).Quiet p := by
  by_cases hk : x ∈ n.neighbours ∨ n.id = x
  · rw [Node.handleNeighborUp, if_pos (by rwa [isKnownNode_iff])]
    exact h
  · rw [not_or] at hk
    have hkeys : n.messages.keys = [] := by
      refine List.eq_nil_iff_forall_not_mem.mpr fun i hi => h.unheld i ?_
      exact HashMap.mem_keys.mp hi
    have hloop : p ∉ (n.handleNeighborUp x).neighbours := by
      rw [neighbours_handleNeighborUp hk.2, Finset.mem_insert, not_or]
      exact ⟨fun hp => hk.2 (h.id_eq.trans hp), h.loopless⟩
    rw [handleNeighborUp_of_new hk.1 hk.2] at hloop ⊢
    exact ⟨⟨h.calm.valid, h.calm.unrecorded⟩, h.id_eq, hloop, h.unheld, h.lazy, by
      simp [hkeys, h.actions]⟩

end Node

namespace Cluster

variable {ids : Finset N} {w w' w₀ w₁ : Cluster N I P} {mv : Move N (Call N I P)} {b : I}
  {p q u v : N} {n m : Node N I P}
  {tr : List (Taken (Cluster N I P) (Move N (Call N I P)))}

/-- The flood of one message through the members of a network. -/
def flood (ids : Finset N) (b : I) (w : Cluster N I P) : Flood ids where
  holds u := (w.node u).Holds b
  eager u v := v.1 ∈ (w.node u).eagerPushPeers
  lazy u v := v.1 ∈ (w.node u).lazyPushPeers
  crossing u v := (sent ids w).countP (Crosses u.1 v.1)
  pruning u v := (v.1, .prune ⟨u.1⟩) ∈ sent ids w

/-- A network through which one message, and no other, spreads over the links of `w₀`. -/
structure Flooding (ids : Finset N) (w₀ : Cluster N I P) (b : I) (w : Cluster N I P) : Prop where
  calm : ∀ p ∈ ids, (w.node p).Calm
  id_eq : ∀ p ∈ ids, (w.node p).id = p
  peers : ∀ p ∈ ids, (w.node p).neighbours = (w₀.node p).neighbours
  kinds : ∀ d m, (d, m) ∈ sent ids w → m.sender ∈ ids ∧ d ∈ (w₀.node m.sender).neighbours ∧
    ((∃ g, m = .gossip g ∧ g.message.id = b) ∨ ∃ u, m = .prune ⟨u⟩)
  growing : ∃ root parent rank, (flood ids b w).Growing (links ids w₀) root parent rank

/-- The nodes before anything is broadcast. -/
structure Silent (w : Cluster N I P) : Prop where
  quiet : ∀ p, (w.node p).Quiet p
  flight : w.flight = []

lemma silent_of_setup {options : N → NodeOptions} {choices : N → List ℕ}
    (h : Run (Network.step protocol ids) (fresh options choices) tr w)
    (hsetup : ∀ e ∈ tr, SettingUp e.input) : Silent w := by
  have hupdate : ∀ {w : Cluster N I P} {p s f}, Silent w → s.Quiet p → f = [] →
      Silent { w.update p s with flight := f } := by
    intro w p s f hw hs hf
    refine ⟨fun q => ?_, hf⟩
    change ((w.update p s).node q).Quiet q
    rw [Network.node_update]
    split
    next hq => exact hq ▸ hs
    next => exact hw.quiet q
  refine h.invariant_of (C := fun e => SettingUp e.input) ?_ ?_ hsetup
  · intro w mv w' hw hs hmv
    cases Network.change_of_step hs with
    | idle => exact hw
    | @called p c s hp hc =>
      refine hupdate hw ?_ hw.flight
      have hq := hw.quiet p
      cases c with
      | handleNeighborUp x =>
        cases hc
        exact hq.handleNeighborUp x
      | tick d =>
        cases hc
        exact hq.alike (Node.tick_alike hq.calm d) rfl
      | reorder i j =>
        cases hc
        exact hq.alike (Node.reorder_alike hq.calm i j) rfl
      | optionsMut o =>
        cases hc
        exact hq.alike (Node.optionsMut_alike hq.calm o) rfl
      | _ => exact hmv.elim
    | @polled p out s hp hc =>
      have hq := hw.quiet p
      obtain ⟨⟨a, n⟩, hpoll, hout⟩ := bind_eq_ok.mp hc
      obtain ⟨ha, halike, hacts⟩ := (Node.pollAction_alike hq.calm).of_ok hpoll
      cases hout
      have ha : a = none := by simpa [hq.actions] using ha
      subst ha
      refine hupdate hw (hq.alike halike ?_) (by simp [hw.flight])
      rw [hacts, hq.actions]
      rfl
    | delivered hd hf hc => simp [hw.flight] at hf
    | duplicated hd hm hc => simp [hw.flight] at hm
    | discarded hd hf => simp [hw.flight] at hf
    | lost hf => exact ⟨hw.quiet, by simpa [hw.flight] using hf⟩
  · exact ⟨fun p => Node.withOptions_quiet p _ _, rfl⟩

/-- The peers of the members form an undirected graph. -/
structure Mutual (ids : Finset N) (w₀ : Cluster N I P) : Prop where
  symm : ∀ p ∈ ids, ∀ q ∈ (w₀.node p).neighbours, q ∈ ids ∧ p ∈ (w₀.node q).neighbours
  loopless : ∀ p ∈ ids, p ∉ (w₀.node p).neighbours

lemma sent_of_silent (hw : Silent w₀) : sent ids w₀ = 0 := by
  refine Multiset.eq_zero_of_forall_notMem fun e he => ?_
  rcases Network.mem_transit.mp he with he | ⟨q, _, he⟩
  · simp [hw.flight] at he
  · simp [Node.queued, (hw.quiet q).actions] at he

lemma Flooding.alike (h : Flooding ids w₀ b w)
    (hnode : ∀ p ∈ ids, Node.Alike (w.node p) (w'.node p)) (hs : sent ids w' = sent ids w) :
    Flooding ids w₀ b w' := by
  have hflood : flood ids b w' = flood ids b w := by
    have hholds : (flood ids b w').holds = (flood ids b w).holds :=
      funext fun u => by simp only [flood, Node.Holds, (hnode u u.2).messages]
    have heager : (flood ids b w').eager = (flood ids b w).eager :=
      funext fun u => funext fun v => propext ((hnode u u.2).eager v)
    have hlazy : (flood ids b w').lazy = (flood ids b w).lazy :=
      funext fun u => funext fun v => propext ((hnode u u.2).lazy v)
    have hcross : (flood ids b w').crossing = (flood ids b w).crossing := by
      simp only [flood, hs]
    have hprune : (flood ids b w').pruning = (flood ids b w).pruning := by
      simp only [flood, hs]
    rw [Flood.mk.injEq]
    exact ⟨hholds, heager, hlazy, hcross, hprune⟩
  refine ⟨fun p hp => (hnode p hp).calm, fun p hp => (hnode p hp).id_eq.trans (h.id_eq p hp),
    fun p hp => (hnode p hp).neighbours_eq.trans (h.peers p hp), ?_, ?_⟩
  · rw [hs]
    exact h.kinds
  · rw [hflood]
    exact h.growing

/-- One node moves and keeps its peers. -/
lemma Flooding.turn (h : Flooding ids w₀ b w) {v : N} (hother : ∀ q, q ≠ v → w'.node q = w.node q)
    (hcalm : (w'.node v).Calm) (hid : (w'.node v).id = (w.node v).id)
    (hpeers : (w'.node v).neighbours = (w.node v).neighbours)
    (hkinds : ∀ d m, (d, m) ∈ sent ids w' → (d, m) ∈ sent ids w ∨
      m.sender ∈ ids ∧ d ∈ (w₀.node m.sender).neighbours ∧
        ((∃ g, m = .gossip g ∧ g.message.id = b) ∨ ∃ u, m = .prune ⟨u⟩))
    (hgrowing : ∃ root parent rank, (flood ids b w').Growing (links ids w₀) root parent rank) :
    Flooding ids w₀ b w' := by
  refine ⟨?_, ?_, ?_, ?_, hgrowing⟩
  · exact Network.forall_moved (Q := fun q n => q ∈ ids → n.Calm) hother (fun _ => hcalm)
      fun q _ => h.calm q
  · exact Network.forall_moved (Q := fun q n => q ∈ ids → n.id = q) hother
      (fun hv => hid.trans (h.id_eq v hv)) fun q _ => h.id_eq q
  · exact Network.forall_moved (Q := fun q n => q ∈ ids → n.neighbours = (w₀.node q).neighbours)
      hother (fun hv => hpeers.trans (h.peers v hv)) fun q _ => h.peers q
  · intro d m hm
    exact (hkinds d m hm).elim (h.kinds d m) fun hm => hm

lemma Flooding.own (h : Flooding ids w₀ b w) (hp : p ∈ ids) (hn : Node.Alike (w.node p) n)
    {f : List (N × ProtocolMessage N I P)}
    (hq : (f : Multiset (N × ProtocolMessage N I P)) + n.queued =
      ↑w.flight + (w.node p).queued) :
    Flooding ids w₀ b { w.update p n with flight := f } := by
  apply h.alike
  · exact Network.forall_update (Q := fun q m => Node.Alike (w.node q) m)
      (fun q hq => .refl (h.calm q hq)) hn
  · have hsame : (0 : Multiset (N × ProtocolMessage N I P)) + (↑f + n.queued) =
        ↑w.flight + (w.node p).queued + 0 := by rw [zero_add, add_zero, hq]
    have hsum := Network.transit_update hp hsame
    rwa [zero_add, add_zero] at hsum

section Flooding

variable (hids : Mutual ids w₀)

include hids

omit [DecidableEq I] in
lemma links_adj {u v : ids} : (links ids w₀).Adj u v ↔ u ≠ v ∧ v.1 ∈ (w₀.node u).neighbours :=
  ⟨fun h => ⟨h.1, h.2.1⟩, fun h => ⟨h.1, h.2, (hids.symm u u.2 v h.2).2⟩⟩

lemma flooding_of_broadcast (hw : Silent w₀) (hr : p ∈ ids) (msg : Message I P)
    (hs : Network.step protocol ids w₀ (.call p (.broadcastMessage msg)) = .ok w) :
    Flooding ids w₀ msg.id w := by
  have hq := hw.quiet p
  obtain ⟨hcalm, hid, hholds, heager, hlazy, hqueued⟩ := Node.broadcastMessage_first hq.calm msg
  have hw' : w = w₀.update p ((w₀.node p).broadcastMessage msg) := by
    simp only [Network.step, if_pos hr] at hs
    exact (Except.ok.inj hs).symm
  have hself : w.node p = (w₀.node p).broadcastMessage msg := by
    rw [hw', Network.node_update_self]
  have hother : ∀ q, q ≠ p → w.node q = w₀.node q := fun q hne => by
    rw [hw', Network.node_update_of_ne w₀ hne]
  have hpeers : ∀ q, (w.node q).neighbours = (w₀.node q).neighbours := by
    apply Network.forall_moved (Q := fun q n => n.neighbours = (w₀.node q).neighbours) hother
    · rw [hself, Node.neighbours_broadcastMessage]
    · exact fun _ _ => rfl
  have hnone : ∀ q x, x ∉ (w.node q).lazyPushPeers := by
    apply Network.forall_moved (Q := fun _ n => ∀ x, x ∉ n.lazyPushPeers) hother
    · rw [hself, hlazy]
      exact hq.lazy
    · exact fun q _ => (hw.quiet q).lazy
  have hheld : ∀ q, (w.node q).Holds msg.id ↔ q = p := by
    apply Network.forall_moved (Q := fun q n => n.Holds msg.id ↔ q = p) hother
    · rw [hself, hholds]
      simp
    · exact fun q hqp => iff_of_false ((hw.quiet q).unheld msg.id) hqp
  have hstill : ∀ q, (w.node q).Calm ∧ (w.node q).id = q := by
    apply Network.forall_moved (Q := fun q n => n.Calm ∧ n.id = q) hother
    · rw [hself]
      exact ⟨hcalm, hid.trans hq.id_eq⟩
    · exact fun q _ => ⟨(hw.quiet q).calm, (hw.quiet q).id_eq⟩
  have hsent : sent ids w =
      ↑(((w₀.node p).pushed ⟨(w₀.node p).id, msg, 0⟩).filterMap Action.outgoing) := by
    have h : 0 + sent ids (w₀.update p ((w₀.node p).broadcastMessage msg)) = sent ids w₀ + _ :=
      Network.transit_update (f := w₀.flight) hr (by rw [hqueued, zero_add, add_assoc])
    rwa [zero_add, sent_of_silent hw, zero_add, ← hw'] at h
  have hknown : ∀ u v : ids, (links ids w₀).Adj u v ↔ v.1 ∈ (w.node u).eagerPushPeers := by
    intro u v
    rw [links_adj hids, ← hpeers, Node.mem_neighbours]
    refine ⟨fun h => h.2.resolve_right (hnone u v), fun h => ⟨?_, .inl h⟩⟩
    rintro rfl
    refine (hw.quiet u).loopless ?_
    rw [← hpeers, Node.mem_neighbours]
    exact .inl h
  have hcross : ∀ u v : ids, (flood ids msg.id w).crossing u v =
      if u.1 = p ∧ v.1 ∈ (w₀.node p).eagerPushPeers ∧ v.1 ≠ p then 1 else 0 := by
    intro u v
    change (sent ids w).countP _ = _
    rw [hsent, Node.countP_pushed hq.lazy, hq.id_eq]
  refine ⟨fun q _ => (hstill q).1, fun q _ => (hstill q).2, fun q _ => hpeers q, ?_, ⟨p, hr⟩, _, _,
    Flood.Started.growing ⟨?_, hknown, fun u v => hnone u v, ?_, ?_, ?_⟩⟩
  · intro d m hm
    rw [hsent, Multiset.mem_coe, Node.pushed_outgoing hq.lazy] at hm
    obtain ⟨x, hx, he⟩ := List.mem_map.mp hm
    cases he
    have hx := HashSet.mem_toList.mp (List.mem_of_mem_filter hx)
    refine ⟨?_, ?_, .inl ⟨_, rfl, rfl⟩⟩
    · change (w₀.node p).id ∈ ids
      rwa [hq.id_eq]
    · change d ∈ (w₀.node (w₀.node p).id).neighbours
      rw [hq.id_eq, Node.mem_neighbours]
      exact .inl hx
  · intro u
    rw [Subtype.ext_iff]
    exact hheld u
  · intro v hadj
    have he := (hknown ⟨p, hr⟩ v).mp hadj
    rw [hself, heager] at he
    rw [hcross, if_pos ⟨rfl, he, fun hv => hadj.ne (Subtype.ext hv.symm)⟩]
  · intro u v huv
    rw [hcross] at huv
    split_ifs at huv with h
    · exact Subtype.ext h.1
    · simp at huv
  · intro u v huv
    change _ ∈ sent ids w at huv
    rw [hsent, Multiset.mem_coe, Node.pushed_outgoing hq.lazy] at huv
    obtain ⟨x, _, he⟩ := List.mem_map.mp huv
    cases he

lemma Flooding.sender_mem (h : Flooding ids w₀ b w) {d : N} {m : ProtocolMessage N I P}
    (hm : (d, m) ∈ sent ids w) : m.sender ∈ ids ∧ d ∈ ids ∧ m.sender ∈ (w.node d).neighbours ∧
      d ∈ (w₀.node m.sender).neighbours := by
  obtain ⟨hs, hd, _⟩ := h.kinds d m hm
  obtain ⟨hd', hs'⟩ := hids.symm _ hs d hd
  exact ⟨hs, hd', h.peers d hd' ▸ hs', hd⟩

lemma Flooding.eager_only (h : Flooding ids w₀ b w) {v : N} (hv : v ∈ ids)
    (hnew : ¬ (w.node v).Holds b) : ∀ x, x ∉ (w.node v).lazyPushPeers := by
  intro x hx
  have hx' : x ∈ (w₀.node v).neighbours := by
    rw [← h.peers v hv, Node.mem_neighbours]
    exact .inr hx
  obtain ⟨root, parent, rank, hg⟩ := h.growing
  exact hg.unaware ⟨v, hv⟩ ⟨x, (hids.symm v hv x hx').1⟩ hnew hx

lemma Flooding.demote (h : Flooding ids w₀ b w) {v : N} {m : ProtocolMessage N I P}
    {acts : List (Action N I P)} {new : Multiset (N × ProtocolMessage N I P)}
    (hm : (v, m) ∈ sent ids w)
    (hself : w'.node v = { (w.node v).toLazy m.sender with actions := acts })
    (hother : ∀ q, q ≠ v → w'.node q = w.node q)
    (hsent : {(v, m)} + sent ids w' = sent ids w + new)
    (hnew : ∀ e ∈ new, e = (m.sender, .prune ⟨v⟩))
    (hcause : 0 < (sent ids w).countP (Crosses m.sender v) ∧ (w.node v).Holds b ∨
      (v, .prune ⟨m.sender⟩) ∈ sent ids w) : Flooding ids w₀ b w' := by
  obtain ⟨hs, hv, hk, hd⟩ := h.sender_mem hids hm
  have hid := h.id_eq v hv
  have hsub : ∀ e ∈ sent ids w', e ∈ sent ids w ∨ e = (m.sender, .prune ⟨v⟩) := fun e he =>
    (Network.mem_of_exchange hsent he).imp_right (hnew e)
  have hcount : ∀ x y, (sent ids w').countP (Crosses x y) +
      (if Crosses x y (v, m) then 1 else 0) = (sent ids w).countP (Crosses x y) := by
    intro x y
    have hnone : new.countP (Crosses x y) = 0 := by
      rw [Multiset.countP_eq_zero]
      intro e he hc
      rw [hnew e he] at hc
      simp [Crosses, ProtocolMessage.gossipFrom] at hc
    rw [Network.countP_of_exchange hsent, hnone, add_zero]
  obtain ⟨root, parent, rank, hg⟩ := h.growing
  refine h.turn hother ?_ ?_ ?_ ?_ ⟨root, parent, rank, ?_⟩
  · rw [hself]
    exact ⟨(h.calm v hv).valid, (h.calm v hv).unrecorded⟩
  · rw [hself]
    rfl
  · rw [hself]
    exact Node.neighbours_toLazy hk
  · intro d m' hm'
    refine (hsub _ hm').imp_right fun he => ?_
    cases he
    exact ⟨hv, (hids.symm _ hs v hd).2, .inr ⟨v, rfl⟩⟩
  · have hgiven : (flood ids b w).holds ⟨m.sender, hs⟩ ∧ (flood ids b w).holds ⟨v, hv⟩ ∧
        ¬ (parentGraph root parent).Adj ⟨m.sender, hs⟩ ⟨v, hv⟩ := by
      rcases hcause with ⟨hc, hh⟩ | hp
      · have hc : 0 < (flood ids b w).crossing ⟨m.sender, hs⟩ ⟨v, hv⟩ := hc
        exact ⟨hg.crossing_holds _ _ hc, hh, hg.not_adj_of_crossing hc hh⟩
      · exact hg.pruning_holds _ _ hp
    have hadj : (links ids w₀).Adj ⟨m.sender, hs⟩ ⟨v, hv⟩ :=
      (links_adj hids).mpr ⟨fun he => hids.loopless v hv
        ((congrArg (fun x : ids => v ∈ (w₀.node x).neighbours) he).mp hd), hd⟩
    have hdemoted : Flood.Demoted ⟨m.sender, hs⟩ ⟨v, hv⟩ (flood ids b w) (flood ids b w') := by
      refine ⟨?_, ?_, ?_, ?_, ?_, ?_⟩
      · intro x
        apply Network.forall_moved (Q := fun q n => n.Holds b ↔ (w.node q).Holds b) hother
        · rw [hself]
          rfl
        · exact fun _ _ => .rfl
      · intro x y
        rw [ne_eq, Prod.ext_iff, Subtype.ext_iff, Subtype.ext_iff]
        apply Network.forall_moved (Q := fun q n => y.1 ∈ n.eagerPushPeers ↔
          y.1 ∈ (w.node q).eagerPushPeers ∧ ¬ (q = v ∧ y.1 = m.sender)) hother
        · rw [hself]
          simp [Node.toLazy, and_comm]
        · intro q hq
          simp [hq]
      · intro x y
        rw [Prod.ext_iff, Subtype.ext_iff, Subtype.ext_iff]
        apply Network.forall_moved (Q := fun q n => y.1 ∈ n.lazyPushPeers ↔
          y.1 ∈ (w.node q).lazyPushPeers ∨ (q = v ∧ y.1 = m.sender)) hother
        · rw [hself]
          simp [Node.toLazy, or_comm]
        · intro q hq
          simp [hq]
      · intro x y hne
        have hc := hcount x y
        rw [if_neg fun hc => hne (Prod.ext (Subtype.ext hc.eq.1) (Subtype.ext hc.eq.2))] at hc
        exact hc
      · exact Nat.le.intro (hcount m.sender v)
      · intro x y hxy
        refine (hsub _ hxy).imp_right fun he => ?_
        obtain ⟨hy, he⟩ := Prod.ext_iff.mp he
        exact Prod.ext (Subtype.ext (PruneMessage.mk.inj (ProtocolMessage.prune.inj he)))
          (Subtype.ext hy)
    exact hg.demoted hdemoted hgiven.1 hgiven.2.1 hadj hgiven.2.2

lemma Flooding.first (h : Flooding ids w₀ b w) {v : N} {g : GossipMessage N I P}
    (hm : (v, .gossip g) ∈ sent ids w) (hnew : ¬ (w.node v).Holds b)
    (hself : w'.node v = (w.node v).handleGossip g) (hother : ∀ q, q ≠ v → w'.node q = w.node q)
    (hsent : ∀ new, (w'.node v).queued = (w.node v).queued + new →
      {(v, .gossip g)} + sent ids w' = sent ids w + new) : Flooding ids w₀ b w' := by
  obtain ⟨hs, hv, hk, hd⟩ := h.sender_mem hids hm
  change g.sender ∈ ids at hs
  change g.sender ∈ _ at hk
  have hid := h.id_eq v hv
  have hgb : g.message.id = b := by
    rcases (h.kinds v _ hm).2.2 with ⟨g', hg, hb⟩ | ⟨u, hu⟩
    · cases hg
      exact hb
    · cases hu
  obtain ⟨root, parent, rank, hg⟩ := h.growing
  have hlazy := h.eager_only hids hv hnew
  have hse : g.sender ∈ (w.node v).eagerPushPeers :=
    (Node.mem_neighbours.mp hk).resolve_right (hlazy _)
  obtain ⟨hcalm, hid', hholds, heager, hlazy', hqueued⟩ :=
    Node.handleGossip_first (h.calm v hv) (hgb ▸ hnew) hlazy hse
  rw [← hself] at hcalm hid' hholds heager hlazy' hqueued
  have hsum := hsent _ hqueued
  have hcount : ∀ x y, (sent ids w').countP (Crosses x y) +
      (if Crosses x y (v, (.gossip g : ProtocolMessage N I P)) then 1 else 0) =
      (sent ids w).countP (Crosses x y) +
        (if x = v ∧ y ∈ (w.node v).eagerPushPeers ∧ y ≠ g.sender then 1 else 0) := by
    intro x y
    rw [Network.countP_of_exchange hsum, Node.countP_pushed hlazy, hid]
  have hsub : ∀ e ∈ sent ids w', e ∈ sent ids w ∨ ∃ x ∈ (w.node v).eagerPushPeers,
      e = (x, .gossip ⟨v, g.message, g.round.saturatingAdd 1⟩) := by
    intro e he
    apply (Network.mem_of_exchange hsum he).imp_right
    intro he
    rw [Multiset.mem_coe, Node.pushed_outgoing hlazy, hid] at he
    obtain ⟨x, hx, rfl⟩ := List.mem_map.mp he
    exact ⟨x, HashSet.mem_toList.mp (List.mem_of_mem_filter hx), rfl⟩
  have hne : g.sender ≠ v := fun he => hids.loopless v hv (he ▸ hd)
  have hhere : Crosses g.sender v (v, (.gossip g : ProtocolMessage N I P)) :=
    ⟨rfl, decide_eq_true rfl⟩
  have hfirst : Flood.First (links ids w₀) ⟨g.sender, hs⟩ ⟨v, hv⟩ (flood ids b w)
      (flood ids b w') := by
    refine ⟨(links_adj hids).mpr ⟨fun he => hne (congrArg Subtype.val he), hd⟩,
      Multiset.countP_pos.mpr ⟨_, hm, hhere⟩, hnew, ?_, ?_, ?_, ?_, ?_, ?_, ?_, ?_⟩
    · intro x
      rw [Subtype.ext_iff]
      apply Network.forall_moved (Q := fun q n => n.Holds b ↔ (w.node q).Holds b ∨ q = v) hother
      · rw [hholds, hgb]
        simp
      · intro q hq
        simp [hq]
    · intro x y
      exact Network.forall_moved (Q := fun q n => y.1 ∈ n.eagerPushPeers ↔
        y.1 ∈ (w.node q).eagerPushPeers) hother (heager y) (fun _ _ => .rfl) x
    · intro x y
      exact Network.forall_moved (Q := fun q n => y.1 ∈ n.lazyPushPeers ↔
        y.1 ∈ (w.node q).lazyPushPeers) hother (hlazy' y) (fun _ _ => .rfl) x
    · intro x y hxy hxv
      have hc := hcount x y
      rw [if_neg fun hc => hxy (Prod.ext (Subtype.ext hc.eq.1) (Subtype.ext hc.eq.2)),
        if_neg fun hc => hxv (Subtype.ext hc.1), add_zero, add_zero] at hc
      exact hc
    · have hc := hcount g.sender v
      rw [if_pos hhere, if_neg fun hc => hne hc.1, add_zero] at hc
      exact hc
    · have hc := hcount v g.sender
      rw [if_neg fun hc => hne hc.eq.1.symm, if_neg fun hc => hc.2.2 rfl, add_zero, add_zero] at hc
      exact hc
    · intro y hy hadj
      have hye : y.1 ∈ (w.node v).eagerPushPeers :=
        ((hg.known ⟨v, hv⟩ y).mp hadj).resolve_right (hlazy y)
      have hc := hcount v y
      rw [if_neg fun hc => hne hc.eq.1.symm, if_pos ⟨rfl, hye, fun he => hy (Subtype.ext he)⟩,
        add_zero] at hc
      exact hc
    · intro x y hxy
      rcases hsub _ hxy with hxy | ⟨z, _, he⟩
      · exact hxy
      · cases he
  refine h.turn hother hcalm hid' ?_ ?_ ⟨root, _, _, hg.first hfirst⟩
  · ext x
    rw [Node.mem_neighbours, Node.mem_neighbours, heager, hlazy']
  · intro d m hm'
    apply (hsub _ hm').imp_right
    rintro ⟨x, hx, he⟩
    cases he
    refine ⟨hv, ?_, .inl ⟨_, rfl, hgb⟩⟩
    change d ∈ (w₀.node v).neighbours
    rw [← h.peers v hv, Node.mem_neighbours]
    exact .inl hx

lemma Flooding.delivered (h : Flooding ids w₀ b w) {m : ProtocolMessage N I P}
    {rest : List (N × ProtocolMessage N I P)} (hv : v ∈ ids) (hf : w.flight.Perm ((v, m) :: rest)) :
    Flooding ids w₀ b
      { w.update v ((w.node v).handleProtocolMessage m).2 with flight := rest } := by
  have hm : (v, m) ∈ sent ids w := Network.mem_transit.mpr (.inl (hf.mem_iff.mpr (by simp)))
  have hflight : (w.flight : Multiset (N × ProtocolMessage N I P)) = {(v, m)} + ↑rest :=
    Multiset.coe_eq_coe.mpr hf
  obtain ⟨_, _, hk, _⟩ := h.sender_mem hids hm
  have hother : ∀ q, q ≠ v → (w.update v ((w.node v).handleProtocolMessage m).2).node q =
      w.node q := fun q hq => Network.node_update_of_ne w hq _
  have hself := Network.node_update_self w v ((w.node v).handleProtocolMessage m).2
  have hsent : ∀ new, ((w.node v).handleProtocolMessage m).2.queued = (w.node v).queued + new →
      {(v, m)} + sent ids { w.update v ((w.node v).handleProtocolMessage m).2 with
        flight := rest } = sent ids w + new := by
    intro new hnew
    refine Network.transit_update hv ?_
    rw [hflight, hnew]
    abel
  rcases (h.kinds v m hm).2.2 with ⟨g, rfl, hgb⟩ | ⟨u, rfl⟩
  · have hstep : (w.node v).handleProtocolMessage (.gossip g) =
        (true, (w.node v).handleGossip g) := by
      rw [Node.handleProtocolMessage.eq_def, if_pos (Node.isKnownNode_iff.mpr hk)]
    rw [hstep] at hself hother hsent ⊢
    by_cases hh : (w.node v).Holds b
    · rw [Node.handleGossip_of_holds (hgb ▸ hh)] at hself hother hsent ⊢
      refine h.demote hids hm hself hother
        (hsent {((ProtocolMessage.gossip g).sender, .prune ⟨v⟩)} ?_)
        (fun e he => Multiset.mem_singleton.mp he)
        (.inl ⟨Multiset.countP_pos.mpr ⟨_, hm, rfl, decide_eq_true rfl⟩, hh⟩)
      have hid := h.id_eq v hv
      simp only [Node.queued, Node.send, Node.pushBack, Node.toLazy, List.filterMap_append, hid]
      rfl
    · refine h.first hids hm hh hself hother fun new hnew => hsent new ?_
      rwa [hself] at hnew
  · have hstep : (w.node v).handleProtocolMessage (.prune ⟨u⟩) =
        (true, (w.node v).handlePrune ⟨u⟩) := by
      rw [Node.handleProtocolMessage.eq_def, if_pos (Node.isKnownNode_iff.mpr hk)]
    rw [hstep] at hself hother hsent ⊢
    exact h.demote hids hm hself hother (hsent 0 (add_zero _).symm) (by simp) (.inr hm)

lemma Flooding.step (h : Flooding ids w₀ b w) (hs : Network.step protocol ids w mv = .ok w')
    (hmv : Orderly mv) : Flooding ids w₀ b w' := by
  cases Network.change_of_step hs with
  | idle => exact h
  | @called p c s hp hc =>
    cases c with
    | tick d =>
      cases hc
      exact h.own hp (Node.tick_alike (h.calm p hp) d) rfl
    | reorder i j =>
      cases hc
      exact h.own hp (Node.reorder_alike (h.calm p hp) i j) rfl
    | optionsMut o =>
      cases hc
      exact h.own hp (Node.optionsMut_alike (h.calm p hp) o) rfl
    | _ => exact hmv.elim
  | @polled p out s hp hc =>
    obtain ⟨⟨a, n⟩, hpoll, hout⟩ := bind_eq_ok.mp hc
    obtain ⟨ha, halike, hacts⟩ := (Node.pollAction_alike (h.calm p hp)).of_ok hpoll
    cases hout
    apply h.own hp halike
    change a = (w.node p).actions.head? at ha
    change s.actions = (w.node p).actions.tail at hacts
    rw [ha, ← Multiset.coe_add, add_assoc, Node.queued_poll (w.node p)]
    simp only [Node.queued, hacts]
  | @delivered i v m s rest hv hf hc =>
    cases hc
    exact h.delivered hids hv hf
  | discarded hv hf =>
    exact absurd (h.sender_mem hids (Network.mem_transit.mpr
      (.inl (hf.mem_iff.mpr List.mem_cons_self)))).2.1 hv
  | _ => exact hmv.elim

end Flooding

/-- The links that are eager at both ends. -/
def eagerLinks (ids : Finset N) (w : Cluster N I P) : SimpleGraph ids where
  Adj u v := u ≠ v ∧ v.1 ∈ (w.node u).eagerPushPeers ∧ u.1 ∈ (w.node v).eagerPushPeers
  symm := ⟨fun _ _ h => ⟨h.1.symm, h.2.symm⟩⟩
  loopless := ⟨fun _ h => h.1 rfl⟩

/-- One broadcast in a connected network leaves a spanning tree of eager links, and the other links
lazy at both ends. -/
theorem spanning_tree {options : N → NodeOptions} {choices : N → List ℕ}
    {setup : List (Taken (Cluster N I P) (Move N (Call N I P)))} {msg : Message I P}
    (hsetup : Run (Network.step protocol ids) (fresh options choices) setup w₀)
    (hup : ∀ e ∈ setup, SettingUp e.input)
    (hsym : ∀ u ∈ ids, ∀ v ∈ (w₀.node u).neighbours, v ∈ ids ∧ u ∈ (w₀.node v).neighbours)
    (hconn : (links ids w₀).Connected) (hp : p ∈ ids)
    (hcast : Network.step protocol ids w₀ (.call p (.broadcastMessage msg)) = .ok w₁)
    (h : Run (Network.step protocol ids) w₁ tr w) (hmoves : ∀ e ∈ tr, Orderly e.input)
    (hflight : w.flight = []) (hqueues : ∀ u ∈ ids, (w.node u).actions = []) :
    (∀ u ∈ ids, ∀ v ∈ (w.node u).eagerPushPeers, v ∈ ids ∧ u ∈ (w.node v).eagerPushPeers) ∧
      (eagerLinks ids w).IsTree ∧ eagerLinks ids w ≤ links ids w₀ ∧
      ∀ u v, (links ids w₀).Adj u v → ¬ (eagerLinks ids w).Adj u v →
        v.1 ∈ (w.node u).lazyPushPeers ∧ u.1 ∈ (w.node v).lazyPushPeers := by
  have hsilent := silent_of_setup hsetup hup
  have hids : Mutual ids w₀ := ⟨hsym, fun q _ => (hsilent.quiet q).loopless⟩
  have hw : Flooding ids w₀ msg.id w :=
    h.invariant_of (C := fun e => Orderly e.input) (fun _ _ _ hw hs hmv => hw.step hids hs hmv)
      (flooding_of_broadcast hids hsilent hp msg hcast) hmoves
  obtain ⟨root, parent, rank, hg⟩ := hw.growing
  have hrest : ∀ u v, (flood ids msg.id w).crossing u v = 0 := by
    intro u v
    rw [flood, Multiset.countP_eq_zero]
    intro e he
    rcases Network.mem_transit.mp he with he | ⟨q, hq, he⟩
    · simp [hflight] at he
    · simp [Node.queued, hqueues q hq] at he
  obtain ⟨htree, hle, hlazy⟩ := hg.at_rest hconn hrest
  have heager : ∀ u v : ids, v.1 ∈ (w.node u).eagerPushPeers ↔ (parentGraph root parent).Adj u v :=
    fun u v => hg.eager_iff hconn hrest u v
  have hsame : eagerLinks ids w = parentGraph root parent := by
    ext u v
    simp only [eagerLinks, heager]
    exact ⟨fun ha => ha.2.1, fun ha => ⟨ha.ne, ha, ha.symm⟩⟩
  rw [hsame]
  refine ⟨?_, htree, hle, fun u v hadj hn => ⟨hlazy u v hadj hn, ?_⟩⟩
  · intro u hu v hv
    have hv' : v ∈ (w₀.node u).neighbours := by
      rw [← hw.peers u hu, Node.mem_neighbours]
      exact .inl hv
    have hvi := (hsym u hu v hv').1
    exact ⟨hvi, (heager ⟨v, hvi⟩ ⟨u, hu⟩).mpr ((heager ⟨u, hu⟩ ⟨v, hvi⟩).mp hv).symm⟩
  · exact hlazy v u hadj.symm fun ha => hn ha.symm

/-- Three nodes, each linked to the two others. -/
def triangle : List (Move ℕ (Call ℕ ℕ ℕ)) :=
  [.call 0 (.handleNeighborUp 1), .call 0 (.handleNeighborUp 2), .call 1 (.handleNeighborUp 0),
    .call 1 (.handleNeighborUp 2), .call 2 (.handleNeighborUp 0), .call 2 (.handleNeighborUp 1)]

/-- The payload crosses the link between the second node and the third in both directions. -/
def crossing : List (Move ℕ (Call ℕ ℕ ℕ)) :=
  [.poll 0, .poll 0, .poll 0, .deliver 0, .deliver 0, .poll 1, .poll 1, .poll 2, .poll 2,
    .deliver 0, .deliver 0, .poll 2, .poll 1, .deliver 0, .deliver 0]

def meshed : Cluster ℕ ℕ ℕ :=
  reached (Network.step protocol {0, 1, 2}) (fresh (fun _ => {}) (fun _ => [])) triangle

/-- The first node of the triangle has broadcast. -/
def announced : Cluster ℕ ℕ ℕ :=
  reached (Network.step protocol {0, 1, 2}) meshed [.call 0 (.broadcastMessage ⟨7, 70⟩)]

def flooded : Cluster ℕ ℕ ℕ := reached (Network.step protocol {0, 1, 2}) announced crossing

theorem spanning_tree_triangle : (eagerLinks {0, 1, 2} flooded).IsTree ∧
    (1 ∈ (flooded.node 0).eagerPushPeers ∧ 2 ∈ (flooded.node 0).eagerPushPeers) ∧
    2 ∈ (flooded.node 1).lazyPushPeers ∧ 1 ∈ (flooded.node 2).lazyPushPeers := by
  have hsetup : follow (Network.step protocol {0, 1, 2})
      (fresh (fun _ => {}) (fun _ => [])) triangle = .ok (_, meshed) := rfl
  have hcast : Network.step protocol {0, 1, 2} meshed
    (.call 0 (.broadcastMessage ⟨7, 70⟩)) = .ok announced := rfl
  have hrun : follow (Network.step protocol {0, 1, 2}) announced crossing = .ok (_, flooded) := rfl
  have hconn : (links {0, 1, 2} meshed).Connected := links_connected 0 (by decide) (by decide)
  have htree := spanning_tree (Run.of_follow triangle hsetup)
    (Run.inputs_of_follow triangle hsetup (by simp [triangle, SettingUp])) (by decide) hconn
    (by decide) hcast (Run.of_follow crossing hrun)
    (Run.inputs_of_follow crossing hrun (by simp [crossing, Orderly])) rfl (by decide)
  exact ⟨htree.2.1, by decide⟩

end Cluster

end QuicP2p.Plumtree
