import QuicP2p.Plumtree.SpanningTree

/-! What the first broadcast costs: the payloads and the prunes that cross the links. -/

namespace QuicP2p.Plumtree

open Library

variable {N I P : Type} [DecidableEq N] [DecidableEq I]

def ProtocolMessage.isGossip : ProtocolMessage N I P → Bool
  | .gossip _ => true
  | _ => false

def ProtocolMessage.isPrune : ProtocolMessage N I P → Bool
  | .prune _ => true
  | _ => false

/-- The message that arrives in a step. -/
def arrival (e : Taken (Cluster N I P) (Move N (Call N I P))) : Option (ProtocolMessage N I P) :=
  match e.input with
  | .deliver i => e.before.flight[i]?.map Prod.snd
  | _ => none

def arrivals (kind : ProtocolMessage N I P → Bool)
    (tr : List (Taken (Cluster N I P) (Move N (Call N I P)))) : ℕ :=
  tr.countP (fun e => (arrival e).any kind)

omit [DecidableEq N] [DecidableEq I] in
lemma arrivals_concat (kind : ProtocolMessage N I P → Bool)
    {tr : List (Taken (Cluster N I P) (Move N (Call N I P)))}
    (e : Taken (Cluster N I P) (Move N (Call N I P))) :
    arrivals kind (tr ++ [e]) = arrivals kind tr + if (arrival e).any kind then 1 else 0 := by
  rw [arrivals, List.countP_append, List.countP_singleton, arrivals]

namespace Node

/-- One for a node that has the message. -/
def share (b : I) (n : Node N I P) : ℕ := if n.messages.containsKey b then 1 else 0

/-- The peers of a node that has the message. -/
def reach (b : I) (n : Node N I P) : ℕ :=
  if n.messages.containsKey b then n.neighbours.card else 0

variable {n m : Node N I P} {b : I} {g : GossipMessage N I P}

lemma share_of_holds (h : n.Holds b) : n.share b = 1 ∧ n.reach b = n.neighbours.card :=
  ⟨if_pos (HashMap.containsKey_iff.mpr h), if_pos (HashMap.containsKey_iff.mpr h)⟩

lemma share_of_lacks (h : ¬ n.Holds b) : n.share b = 0 ∧ n.reach b = 0 :=
  ⟨if_neg (mt HashMap.containsKey_iff.mp h), if_neg (mt HashMap.containsKey_iff.mp h)⟩

lemma share_congr (hm : ∀ i, m.messages.get i = n.messages.get i)
    (hp : m.neighbours = n.neighbours) : m.share b = n.share b ∧ m.reach b = n.reach b := by
  have hkey : m.messages.containsKey b = n.messages.containsKey b := by
    simp only [HashMap.containsKey, hm]
  rw [share, share, reach, reach, hkey, hp]
  exact ⟨rfl, rfl⟩

omit [DecidableEq I] in
lemma card_neighbours (hl : ∀ x, x ∉ n.lazyPushPeers) :
    n.neighbours.card = n.eagerPushPeers.toList.length := by
  have hnil : n.lazyPushPeers.toList = [] := List.eq_nil_iff_forall_not_mem.mpr hl
  rw [neighbours, hnil, List.toFinset_nil, Finset.union_empty,
    List.toFinset_card_of_nodup n.eagerPushPeers.nodup]

omit [DecidableEq I] in
/-- A node whose peers are all eager pushes the payload to each of them but the sender, and nothing
else. -/
lemma count_pushed (hl : ∀ x, x ∉ n.lazyPushPeers) :
    (↑((n.pushed g).filterMap Action.outgoing) :
      Multiset (N × ProtocolMessage N I P)).countP (fun e => e.2.isGossip) =
        (n.eagerPushPeers.toList.filter (fun x => x ≠ g.sender)).length ∧
      (↑((n.pushed g).filterMap Action.outgoing) :
        Multiset (N × ProtocolMessage N I P)).countP (fun e => e.2.isPrune) = 0 := by
  rw [pushed_outgoing hl, Multiset.coe_countP, Multiset.coe_countP, List.countP_map,
    List.countP_map]
  exact ⟨List.countP_eq_length.mpr fun _ _ => rfl, List.countP_eq_zero.mpr fun _ _ h => by cases h⟩

lemma length_others {xs : HashSet N} {s : N} (hs : s ∈ xs) :
    (xs.toList.filter (fun x => x ≠ s)).length + 1 = xs.toList.length := by
  have hpos := List.length_pos_of_mem hs
  have herase := List.length_erase_of_mem hs
  have hsame : xs.toList.filter (fun x => x ≠ s) = xs.toList.erase s := by
    rw [xs.nodup.erase_eq_filter s]
    exact List.filter_congr fun x _ => by simp [bne, beq_eq_decide]
  rw [hsame]
  omega

lemma arrival_balance (h : n.Calm) {msg : ProtocolMessage N I P} (hs : msg.sender ∈ n.neighbours)
    (hkind : (∃ g, msg = .gossip g ∧ g.message.id = b) ∨ ∃ u, msg = .prune ⟨u⟩)
    (hlazy : ¬ n.Holds b → ∀ x, x ∉ n.lazyPushPeers) :
    ∃ new, (n.handleProtocolMessage msg).2.queued = n.queued + new ∧
      new.countP (fun e => e.2.isGossip) + (n.handleProtocolMessage msg).2.share b + n.reach b =
        (n.handleProtocolMessage msg).2.reach b + n.share b ∧
      (if msg.isGossip then 1 else 0) + n.share b =
        (n.handleProtocolMessage msg).2.share b + new.countP (fun e => e.2.isPrune) := by
  have hpeers := neighbours_handleProtocolMessage (n := n) msg
  rw [handleProtocolMessage.eq_def, if_pos (isKnownNode_iff.mpr hs)] at hpeers ⊢
  rcases hkind with ⟨g, rfl, rfl⟩ | ⟨u, rfl⟩
  · dsimp only at hpeers ⊢
    by_cases hh : n.Holds g.message.id
    · rw [handleGossip_of_holds hh] at hpeers ⊢
      obtain ⟨hshare, hreach⟩ : ((n.toLazy g.sender).send g.sender (.prune ⟨n.id⟩)).share
          g.message.id = n.share g.message.id ∧ ((n.toLazy g.sender).send g.sender
          (.prune ⟨n.id⟩)).reach g.message.id = n.reach g.message.id :=
        share_congr (fun _ => rfl) hpeers
      refine ⟨{(g.sender, .prune ⟨n.id⟩)}, ?_, ?_, ?_⟩
      · simp only [queued, send, pushBack, toLazy, List.filterMap_append]
        rfl
      · have hnone : (({(g.sender, .prune ⟨n.id⟩)} : Multiset (N × ProtocolMessage N I P))).countP
            (fun e => e.2.isGossip) = 0 := rfl
        rw [hshare, hreach, hnone]
        omega
      · have hone : (({(g.sender, .prune ⟨n.id⟩)} : Multiset (N × ProtocolMessage N I P))).countP
            (fun e => e.2.isPrune) = 1 := rfl
        rw [hshare, hone]
        exact Nat.add_comm 1 _
    · have hl := hlazy hh
      have hse : g.sender ∈ n.eagerPushPeers := (mem_neighbours.mp hs).resolve_right (hl _)
      obtain ⟨_, _, hholds, _, _, hqueued⟩ := handleGossip_first h hh hl hse
      obtain ⟨hgossips, hprunes⟩ := count_pushed (g := g) hl
      obtain ⟨hshare, hreach⟩ := share_of_lacks hh
      obtain ⟨hshare', hreach'⟩ := share_of_holds ((hholds g.message.id).mpr (.inr rfl))
      have hlen := length_others hse
      refine ⟨_, hqueued, ?_, ?_⟩
      · rw [hgossips, hshare', hreach', hshare, hreach, hpeers, card_neighbours hl]
        omega
      · rw [hprunes, hshare', hshare]
        rfl
  · obtain ⟨hshare, hreach⟩ : (n.handlePrune ⟨u⟩).share b = n.share b ∧
      (n.handlePrune ⟨u⟩).reach b = n.reach b := share_congr (fun _ => rfl) hpeers
    refine ⟨0, (add_zero _).symm, ?_, ?_⟩
    · dsimp only
      rw [hshare, hreach, Multiset.countP_zero]
      omega
    · dsimp only
      rw [hshare, Multiset.countP_zero]
      exact Nat.zero_add _

end Node

namespace Cluster

variable {ids : Finset N} {w w' w₀ w₁ : Cluster N I P} {mv : Move N (Call N I P)} {b : I} {p : N}
  {n : Node N I P} {tr : List (Taken (Cluster N I P) (Move N (Call N I P)))}

/-- Each node that has the payload stands for its peers but one, from which it has it; every other
payload that arrives is answered by a prune. -/
structure Balanced (ids : Finset N) (b : I)
    (tr : List (Taken (Cluster N I P) (Move N (Call N I P)))) (w : Cluster N I P) : Prop where
  gossips : arrivals ProtocolMessage.isGossip tr + (sent ids w).countP (fun e => e.2.isGossip) +
    ∑ p ∈ ids, (w.node p).share b = ∑ p ∈ ids, (w.node p).reach b + 1
  prunes : arrivals ProtocolMessage.isGossip tr + 1 = arrivals ProtocolMessage.isPrune tr +
    (sent ids w).countP (fun e => e.2.isPrune) + ∑ p ∈ ids, (w.node p).share b

lemma Balanced.still (h : Balanced ids b tr w) (ha : arrival ⟨w, mv, w'⟩ = none)
    (hs : sent ids w' = sent ids w)
    (hnode : ∀ p ∈ ids, (w'.node p).share b = (w.node p).share b ∧
      (w'.node p).reach b = (w.node p).reach b) :
    Balanced ids b (tr ++ [⟨w, mv, w'⟩]) w' := by
  have hshare := Finset.sum_congr rfl fun p hp => (hnode p hp).1
  have hreach := Finset.sum_congr rfl fun p hp => (hnode p hp).2
  constructor
  · rw [arrivals_concat, ha, hs, hshare, hreach]
    exact h.gossips
  · rw [arrivals_concat, arrivals_concat, ha, hs, hshare]
    exact h.prunes

lemma Balanced.own (h : Balanced ids b tr w) (ha : arrival ⟨w, mv, w'⟩ = none) (hp : p ∈ ids)
    (hn : Node.Alike (w.node p) n) {f : List (N × ProtocolMessage N I P)}
    (hw : w' = { w.update p n with flight := f })
    (hq : (f : Multiset (N × ProtocolMessage N I P)) + n.queued =
      ↑w.flight + (w.node p).queued) : Balanced ids b (tr ++ [⟨w, mv, w'⟩]) w' := by
  have hsent : sent ids w' = sent ids w := by
    have hsame : (0 : Multiset (N × ProtocolMessage N I P)) + (↑f + n.queued) =
        ↑w.flight + (w.node p).queued + 0 := by rw [zero_add, add_zero, hq]
    have hsum := Network.transit_update hp hsame
    rwa [zero_add, add_zero, ← hw] at hsum
  refine h.still ha hsent ?_
  rw [hw]
  exact Network.forall_update (Q := fun q (m : Node N I P) =>
    m.share b = (w.node q).share b ∧ m.reach b = (w.node q).reach b) (fun _ _ => ⟨rfl, rfl⟩)
    (Node.share_congr hn.messages hn.neighbours_eq)

lemma Balanced.step (h : Balanced ids b tr w) (hids : Mutual ids w₀) (hw : Flooding ids w₀ b w)
    (hs : Network.step protocol ids w mv = .ok w') (hmv : Orderly mv) :
    Balanced ids b (tr ++ [⟨w, mv, w'⟩]) w' := by
  cases mv with
  | call p c =>
    cases Network.change_of_step hs with
    | idle => exact h.still rfl rfl fun _ _ => ⟨rfl, rfl⟩
    | called hp hc =>
      cases c with
      | tick d =>
        cases hc
        exact h.own rfl hp (Node.tick_alike (hw.calm p hp) d) rfl rfl
      | reorder i j =>
        cases hc
        exact h.own rfl hp (Node.reorder_alike (hw.calm p hp) i j) rfl rfl
      | optionsMut o =>
        cases hc
        exact h.own rfl hp (Node.optionsMut_alike (hw.calm p hp) o) rfl rfl
      | _ => exact hmv.elim
  | poll p =>
    cases Network.change_of_step hs with
    | idle => exact h.still rfl rfl fun _ _ => ⟨rfl, rfl⟩
    | @polled _ out s hp hc =>
      obtain ⟨⟨a, n⟩, hpoll, hout⟩ := bind_eq_ok.mp hc
      obtain ⟨ha, halike, hacts⟩ := (Node.pollAction_alike (hw.calm p hp)).of_ok hpoll
      cases hout
      refine h.own rfl hp halike rfl ?_
      change a = (w.node p).actions.head? at ha
      change s.actions = (w.node p).actions.tail at hacts
      rw [ha, ← Multiset.coe_add, add_assoc, Node.queued_poll (w.node p)]
      simp only [Node.queued, hacts]
  | deliver i =>
    simp only [Network.step] at hs
    split at hs
    next v m hm =>
      have harr : arrival ⟨w, .deliver i, w'⟩ = some m := by
        simp only [arrival, hm]
        rfl
      have hin : (v, m) ∈ sent ids w := Network.mem_transit.mpr (.inl (List.mem_of_getElem? hm))
      obtain ⟨_, hv, hk, _⟩ := hw.sender_mem hids hin
      have hf : w.flight.Perm ((v, m) :: w.flight.eraseIdx i) := by
        obtain ⟨hi, hm⟩ := List.getElem?_eq_some_iff.mp hm
        exact hm ▸ (List.getElem_cons_eraseIdx_perm hi).symm
      have hflight : (w.flight : Multiset (N × ProtocolMessage N I P)) =
          {(v, m)} + ↑(w.flight.eraseIdx i) := Multiset.coe_eq_coe.mpr hf
      rw [Network.receive, if_pos hv] at hs
      obtain ⟨s, hc, hs⟩ := bind_eq_ok.mp hs
      cases hc
      obtain ⟨new, hqueued, hgossips, hprunes⟩ := Node.arrival_balance (hw.calm v hv) hk
        (hw.kinds v m hin).2.2 (hw.eager_only hids hv)
      have hsent : {(v, m)} + sent ids w' = sent ids w + new := by
        cases hs
        change {(v, m)} + sent ids { w.update v ((w.node v).handleProtocolMessage m).2 with
          flight := w.flight.eraseIdx i } = _
        refine Network.transit_update hv ?_
        rw [hflight, hqueued]
        abel
      have hself : w'.node v = ((w.node v).handleProtocolMessage m).2 := by
        cases hs
        exact Network.node_update_self _ _ _
      have hother : ∀ q, q ≠ v → w'.node q = w.node q := by
        intro q hq
        cases hs
        exact Network.node_update_of_ne _ hq _
      have hg := Network.countP_of_exchange (p := fun e => e.2.isGossip) hsent
      have hp := Network.countP_of_exchange (p := fun e => e.2.isPrune) hsent
      have hshare := Network.sum_moved (Node.share b) hv hother
      have hreach := Network.sum_moved (Node.reach b) hv hother
      rw [← hself] at hgossips hprunes
      have hkind : (if m.isGossip then 1 else 0) + (if m.isPrune then 1 else 0) = 1 := by
        rcases (hw.kinds v m hin).2.2 with ⟨g, rfl, _⟩ | ⟨u, rfl⟩
        · rfl
        · rfl
      have hold := h.gossips
      have hold' := h.prunes
      constructor
      · rw [arrivals_concat, harr]
        dsimp only [Option.any_some] at hg ⊢
        omega
      · rw [arrivals_concat, arrivals_concat, harr]
        dsimp only [Option.any_some] at hp ⊢
        omega
    next hnone =>
      cases hs
      refine h.still ?_ rfl fun _ _ => ⟨rfl, rfl⟩
      simp only [arrival, hnone]
      rfl
  | _ => exact hmv.elim

lemma balanced_of_broadcast (hw : Silent w₀) (hp : p ∈ ids) (msg : Message I P)
    (hs : Network.step protocol ids w₀ (.call p (.broadcastMessage msg)) = .ok w) :
    Balanced ids msg.id [] w := by
  have hq := hw.quiet p
  obtain ⟨_, _, hholds, _, _, hqueued⟩ := Node.broadcastMessage_first hq.calm msg
  have hw' : w = w₀.update p ((w₀.node p).broadcastMessage msg) := by
    simp only [Network.step, if_pos hp] at hs
    exact (Except.ok.inj hs).symm
  have hself : w.node p = (w₀.node p).broadcastMessage msg := by
    rw [hw', Network.node_update_self]
  have hother : ∀ q, q ≠ p → w.node q = w₀.node q := fun q hne => by
    rw [hw', Network.node_update_of_ne w₀ hne]
  have hsent : sent ids w =
      ↑(((w₀.node p).pushed ⟨(w₀.node p).id, msg, 0⟩).filterMap Action.outgoing) := by
    have h : 0 + sent ids (w₀.update p ((w₀.node p).broadcastMessage msg)) = sent ids w₀ + _ :=
      Network.transit_update (f := w₀.flight) hp (by rw [hqueued, zero_add, add_assoc])
    rwa [zero_add, sent_of_silent hw, zero_add, ← hw'] at h
  obtain ⟨hgossips, hprunes⟩ := Node.count_pushed (g := ⟨(w₀.node p).id, msg, 0⟩) hq.lazy
  have hall : (w₀.node p).eagerPushPeers.toList.filter (fun x => x ≠ (w₀.node p).id) =
      (w₀.node p).eagerPushPeers.toList := by
    refine List.filter_eq_self.mpr fun x hx => decide_eq_true fun he => hq.loopless ?_
    have hx : x ∈ (w₀.node p).neighbours :=
      Node.mem_neighbours.mpr (.inl (HashSet.mem_toList.mp hx))
    rwa [he, hq.id_eq] at hx
  rw [hall, ← Node.card_neighbours hq.lazy] at hgossips
  have hnone : ∀ q, (w₀.node q).share msg.id = 0 ∧ (w₀.node q).reach msg.id = 0 :=
    fun q => Node.share_of_lacks ((hw.quiet q).unheld msg.id)
  obtain ⟨hone, hpeers⟩ := Node.share_of_holds ((hholds msg.id).mpr (.inr rfl))
  rw [← hself] at hone hpeers
  rw [hself, Node.neighbours_broadcastMessage, ← hself] at hpeers
  have hshare := Network.sum_moved (Node.share msg.id) hp hother
  have hreach := Network.sum_moved (Node.reach msg.id) hp hother
  rw [(hnone p).1, hone, Finset.sum_eq_zero fun q _ => (hnone q).1] at hshare
  rw [(hnone p).2, hpeers, Finset.sum_eq_zero fun q _ => (hnone q).2] at hreach
  constructor
  · rw [hsent, hgossips, arrivals, List.countP_nil]
    omega
  · rw [hsent, hprunes, arrivals, arrivals, List.countP_nil, List.countP_nil]
    omega

/-- What the first broadcast costs. In a connected network of `n` nodes and `m` links it takes
`2 m - n + 1` payloads, of which all but `n - 1` are answered by a prune. -/
theorem first_broadcast_cost {options : N → NodeOptions} {choices : N → List ℕ}
    {setup : List (Taken (Cluster N I P) (Move N (Call N I P)))} {msg : Message I P}
    (hsetup : Run (Network.step protocol ids) (fresh options choices) setup w₀)
    (hup : ∀ e ∈ setup, SettingUp e.input)
    (hsym : ∀ u ∈ ids, ∀ v ∈ (w₀.node u).neighbours, v ∈ ids ∧ u ∈ (w₀.node v).neighbours)
    (hconn : (links ids w₀).Connected) (hp : p ∈ ids)
    (hcast : Network.step protocol ids w₀ (.call p (.broadcastMessage msg)) = .ok w₁)
    (h : Run (Network.step protocol ids) w₁ tr w) (hmoves : ∀ e ∈ tr, Orderly e.input)
    (hflight : w.flight = []) (hqueues : ∀ u ∈ ids, (w.node u).actions = []) :
    arrivals ProtocolMessage.isGossip tr + ids.card =
        ∑ u ∈ ids, (w₀.node u).neighbours.card + 1 ∧
      arrivals ProtocolMessage.isPrune tr + ids.card =
        arrivals ProtocolMessage.isGossip tr + 1 := by
  have hsilent := silent_of_setup hsetup hup
  have hids : Mutual ids w₀ := ⟨hsym, fun q _ => (hsilent.quiet q).loopless⟩
  have hboth : Flooding ids w₀ msg.id w ∧ Balanced ids msg.id tr w := by
    refine h.history (P := fun tr w => (∀ e ∈ tr, Orderly e.input) →
      Flooding ids w₀ msg.id w ∧ Balanced ids msg.id tr w) ?_ ?_ hmoves
    · intro tr w mv w' ih hs hmoves
      obtain ⟨hw, hb⟩ := ih fun e he => hmoves e (List.mem_append_left _ he)
      have hmv := hmoves ⟨w, mv, w'⟩ (by simp)
      exact ⟨hw.step hids hs hmv, hb.step hids hw hs hmv⟩
    · exact fun _ => ⟨flooding_of_broadcast hids hsilent hp msg hcast,
        balanced_of_broadcast hsilent hp msg hcast⟩
  obtain ⟨hw, hb⟩ := hboth
  have hnone : sent ids w = 0 := by
    refine Multiset.eq_zero_of_forall_notMem fun e he => ?_
    rcases Network.mem_transit.mp he with he | ⟨q, hq, he⟩
    · simp [hflight] at he
    · simp [Node.queued, hqueues q hq] at he
  obtain ⟨root, parent, rank, hg⟩ := hw.growing
  have hrest : ∀ u v, (flood ids msg.id w).crossing u v = 0 := by
    intro u v
    change (sent ids w).countP _ = 0
    rw [hnone, Multiset.countP_zero]
  have hnode : ∀ u ∈ ids, (w.node u).share msg.id = 1 ∧
      (w.node u).reach msg.id = (w₀.node u).neighbours.card := by
    intro u hu
    obtain ⟨hshare, hreach⟩ := Node.share_of_holds (hg.all_hold hconn hrest ⟨u, hu⟩)
    exact ⟨hshare, by rw [hreach, hw.peers u hu]⟩
  have hshare : ∑ u ∈ ids, (w.node u).share msg.id = ids.card := by
    rw [Finset.sum_congr rfl fun u hu => (hnode u hu).1, Finset.sum_const, smul_eq_mul, mul_one]
  have hreach := Finset.sum_congr rfl fun u hu => (hnode u hu).2
  have hgossips := hb.gossips
  have hprunes := hb.prunes
  rw [hnone, Multiset.countP_zero, hshare] at hgossips hprunes
  rw [hreach] at hgossips
  omega

/-- Four payloads cross the three links of the triangle, and two prunes. -/
theorem first_broadcast_cost_triangle :
    ∃ tr : List (Taken (Cluster ℕ ℕ ℕ) (Move ℕ (Call ℕ ℕ ℕ))),
      Run (Network.step protocol {0, 1, 2}) announced tr flooded ∧
        arrivals ProtocolMessage.isGossip tr = 4 ∧ arrivals ProtocolMessage.isPrune tr = 2 := by
  have hsetup : follow (Network.step protocol {0, 1, 2})
      (fresh (fun _ => {}) (fun _ => [])) triangle = .ok (_, meshed) := rfl
  have hcast : Network.step protocol {0, 1, 2} meshed
    (.call 0 (.broadcastMessage ⟨7, 70⟩)) = .ok announced := rfl
  obtain ⟨tr, hrun⟩ : ∃ tr, follow (Network.step protocol {0, 1, 2}) announced crossing =
    .ok (tr, flooded) := ⟨_, rfl⟩
  have hconn : (links {0, 1, 2} meshed).Connected := links_connected 0 (by decide) (by decide)
  have hcost := first_broadcast_cost (Run.of_follow triangle hsetup)
    (Run.inputs_of_follow triangle hsetup (by simp [triangle, SettingUp])) (by decide) hconn
    (by decide) hcast (Run.of_follow crossing hrun)
    (Run.inputs_of_follow crossing hrun (by simp [crossing, Orderly])) rfl (by decide)
  refine ⟨tr, Run.of_follow crossing hrun, ?_⟩
  have hcard : ({0, 1, 2} : Finset ℕ).card = 3 := rfl
  have hdegrees : ∑ u ∈ ({0, 1, 2} : Finset ℕ), (meshed.node u).neighbours.card = 6 := by decide
  rw [hcard, hdegrees] at hcost
  omega

end Cluster

end QuicP2p.Plumtree
