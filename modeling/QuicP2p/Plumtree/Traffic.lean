import QuicP2p.Plumtree.Partition
import QuicP2p.Plumtree.SpanningTree

/-! The traffic of a network of Plumtree nodes: left alone, it comes to rest, and each broadcast
costs no more steps than the links of the network allow. -/

namespace QuicP2p.Plumtree

open Library

variable {N I P : Type} [DecidableEq N] [DecidableEq I]

/-- The steps that a message on its way can still lead to. A `PRUNE` ends at its destination, a
`GOSSIP` is answered by one, a `GRAFT` by a `GOSSIP`, and an `IHAVE` by a `GRAFT`. -/
def ProtocolMessage.cost : ProtocolMessage N I P → ℕ
  | .prune _ => 1
  | .gossip _ => 3
  | .graft m => if m.messageId.isSome then 5 else 1
  | .ihave _ => 7

omit [DecidableEq N] [DecidableEq I] in
lemma ProtocolMessage.one_le_cost (m : ProtocolMessage N I P) : 1 ≤ m.cost := by
  cases m with
  | graft g =>
    dsimp only [cost]
    split <;> omega
  | _ => simp [cost]

/-- The message whose payload is carried. -/
def ProtocolMessage.gossiped : ProtocolMessage N I P → Option I
  | .gossip m => some m.message.id
  | _ => none

def Action.cost : Action N I P → ℕ
  | .send _ message => message.cost + 1
  | .deliver _ => 1

namespace Node

/-- The messages of `known` that the node lacks. -/
def lacks (known : Finset I) (n : Node N I P) : Finset I :=
  known.filter (fun i => n.messages.get i = none)

/-- The steps that the node can still lead to: by its queue, by the announcements that wait, and by
the messages that it lacks and will pass on. -/
def work (known : Finset I) (n : Node N I P) : ℕ :=
  (n.actions.map Action.cost).sum + 6 * n.missings.waiting.card +
    (8 * n.neighbours.card + 5) * (n.lacks known).card

variable {known : Finset I} {n m k : Node N I P}

omit [DecidableEq N] in
lemma lacks_congr (h : ∀ i, m.messages.get i = n.messages.get i) :
    m.lacks known = n.lacks known := by
  simp only [lacks, h]

omit [DecidableEq I] in
lemma cost_grafts (spent : List (NodeTime × IhaveMessage N I)) :
    ((n.grafts spent).map Action.cost).sum ≤ 6 * spent.length := by
  have hlen : (n.grafts spent).length ≤ spent.length := by
    rw [grafts, List.length_map]
    exact List.length_filter_le _ _
  have hall : ∀ c ∈ (n.grafts spent).map Action.cost, c ≤ 6 := by
    intro c hc
    obtain ⟨a, ha, rfl⟩ := List.mem_map.mp hc
    obtain ⟨_, _, _, rfl⟩ := mem_grafts.mp ha
    exact le_rfl
  have hsum := List.sum_le_card_nsmul _ 6 hall
  rw [List.length_map, smul_eq_mul] at hsum
  omega

/-- Requests take the place of the announcements that have expired. -/
lemma Drained.work_le {spent : List (NodeTime × IhaveMessage N I)} (h : Drained n m spent) :
    m.work known ≤ n.work known := by
  have hgrafts := cost_grafts (n := n) spent
  have hwaiting : n.missings.waiting.card = spent.length + m.missings.waiting.card := by
    rw [h.waiting_eq, Multiset.card_add, Multiset.coe_card]
  have hlacks : m.lacks known = n.lacks known := lacks_congr fun i => by rw [h.messages_eq]
  rw [work, work, hlacks, h.neighbours_eq, h.actions_eq, List.map_append, List.sum_append]
  omega

lemma pollAction_work (h : n.missings.Valid) : Yields n.pollAction (fun r =>
    r.2.work known + (r.1.map Action.cost).getD 0 ≤ n.work known) := by
  refine (handleExpiration_spec h).bind ?_
  rintro m ⟨⟨spent, hm, _⟩, _⟩
  refine .ok (le_trans (le_of_eq ?_) hm.work_le)
  cases ha : m.actions with
  | nil =>
    have hsame : ({ m with actions := [] } : Node N I P) = m := by rw [← ha]
    simp [hsame]
  | cons a rest =>
    have hlacks : ({ m with actions := rest } : Node N I P).lacks known = m.lacks known := rfl
    simp only [work, ha, List.tail_cons, List.head?_cons, Option.map_some, Option.getD_some,
      List.map_cons, List.sum_cons]
    change _ + 6 * m.missings.waiting.card + (8 * m.neighbours.card + 5) * (m.lacks known).card +
      _ = _
    omega

omit [DecidableEq I] in
lemma Partitioned.length_add (h : n.Partitioned) :
    n.eagerPushPeers.toList.length + n.lazyPushPeers.toList.length = n.neighbours.card := by
  rw [← List.toFinset_card_of_nodup n.eagerPushPeers.nodup,
    ← List.toFinset_card_of_nodup n.lazyPushPeers.nodup, neighbours]
  refine (Finset.card_union_of_disjoint (Finset.disjoint_left.mpr ?_)).symm
  intro x he hl
  exact h.disjoint x (List.mem_toFinset.mp he) (List.mem_toFinset.mp hl)

omit [DecidableEq I] in
lemma cost_pushed (h : n.Partitioned) (g : GossipMessage N I P) :
    ((n.pushed g).map Action.cost).sum ≤ 8 * n.neighbours.card + 1 := by
  have hconst : ∀ (ds : List N) (msg : ProtocolMessage N I P),
      ((ds.map (Action.send · msg)).map Action.cost).sum = ds.length * (msg.cost + 1) := by
    intro ds msg
    have hmap : (ds.map (Action.send · msg)).map Action.cost = ds.map (fun _ => msg.cost + 1) :=
      List.map_map
    rw [hmap, List.map_const', List.sum_replicate, smul_eq_mul]
  have heager := List.length_filter_le (fun x => decide (x ≠ g.sender)) n.eagerPushPeers.toList
  have hlazy := List.length_filter_le (fun x => decide (x ≠ g.sender)) n.lazyPushPeers.toList
  have hsum := h.length_add
  rw [pushed, List.map_cons, List.sum_cons, List.map_append, List.sum_append, hconst, hconst]
  simp only [Action.cost, ProtocolMessage.cost]
  omega

omit [DecidableEq N] in
lemma cost_optimizing (g : GossipMessage N I P) :
    ((n.optimizing g).map Action.cost).sum ≤ 4 := by
  unfold optimizing
  split
  · split
    · exact le_rfl
    · exact Nat.zero_le _
  · exact Nat.zero_le _

omit [DecidableEq N] in
lemma card_lacks_insert {i : I} {x : P} (hi : i ∈ known) (hn : ¬ n.Holds i)
    (h : m.messages = n.messages.insert i x) :
    (m.lacks known).card + 1 = (n.lacks known).card := by
  have hmem : i ∈ n.lacks known := by
    refine Finset.mem_filter.mpr ⟨hi, ?_⟩
    by_contra hne
    exact hn (Option.ne_none_iff_exists'.mp hne)
  have herase : m.lacks known = (n.lacks known).erase i := by
    ext j
    rw [lacks, lacks, Finset.mem_erase, Finset.mem_filter, Finset.mem_filter, h, HashMap.get_insert]
    by_cases hj : j = i
    · simp [hj]
    · simp [hj]
  rw [herase, Finset.card_erase_add_one hmem]

variable {acts : List (Action N I P)}

lemma work_of_same {c : ℕ} (hm : ∀ i, m.messages.get i = n.messages.get i)
    (hpeers : m.neighbours = n.neighbours) (hw : m.missings = n.missings)
    (hacts : m.actions = n.actions ++ acts) (hcost : (acts.map Action.cost).sum = c) :
    m.work known = n.work known + c := by
  rw [work, work, lacks_congr hm, hacts, hpeers, hw, List.map_append, List.sum_append, hcost]
  omega

lemma work_of_new {i : I} {x : P} (hm : m.messages = n.messages.insert i x)
    (hacts : m.actions = n.actions ++ acts) (hpeers : m.neighbours = n.neighbours)
    (hw : m.missings.waiting.card ≤ n.missings.waiting.card)
    (hcost : (acts.map Action.cost).sum ≤ 8 * n.neighbours.card + 5) (hi : i ∈ known)
    (hn : ¬ n.Holds i) : m.work known ≤ n.work known := by
  have hlacks := card_lacks_insert hi hn hm
  rw [work, work, hacts, hpeers, List.map_append, List.sum_append, ← hlacks, Nat.mul_succ]
  omega

lemma handleGossip_work (h : n.missings.Valid) (hp : n.Partitioned) {g : GossipMessage N I P}
    (hs : g.sender ∈ n.neighbours) (hg : g.message.id ∈ known) :
    (n.handleGossip g).work known ≤ n.work known + 2 := by
  by_cases hh : n.Holds g.message.id
  · rw [handleGossip_of_holds hh]
    exact le_of_eq (work_of_same (fun _ => rfl) (neighbours_toLazy hs) rfl rfl rfl)
  · rw [handleGossip_of_fresh hh]
    obtain ⟨_, hwaiting⟩ := MissingMessages.remove_spec h g.message.id
    have hpushed := cost_pushed hp g
    have hoptimizing := n.cost_optimizing g
    refine le_trans (work_of_new rfl rfl (neighbours_toEager hs) ?_ ?_ hg hh) (by omega)
    · dsimp only
      rw [hwaiting]
      exact Multiset.card_le_card (Multiset.filter_le _ _)
    · rw [List.map_append, List.sum_append]
      omega

lemma handleIhave_work (h : n.missings.Valid) (i : IhaveMessage N I) :
    (n.handleIhave i).work known ≤ n.work known + 6 := by
  rw [handleIhave]
  split
  · omega
  · obtain ⟨_, hwaiting⟩ := MissingMessages.push_spec h
      (if n.eagerPushPeers.isEmpty then { i with realtime := true } else i) n.clock
      n.options.ihaveTimeout
    have hcard := congrArg Multiset.card hwaiting
    rw [Multiset.card_cons] at hcard
    refine le_of_eq ?_
    simp only [work]
    change _ + 6 * (n.missings.push _ n.clock n.options.ihaveTimeout).waiting.card +
      (8 * n.neighbours.card + 5) * (n.lacks known).card = _
    rw [hcard]
    omega

lemma handleGraft_work {g : GraftMessage N I} (hs : g.sender ∈ n.neighbours) :
    (n.handleGraft g).work known + 1 ≤
      n.work known + (.graft g : ProtocolMessage N I P).cost := by
  have hpeers := neighbours_toEager hs
  have hsame : (n.toEager g.sender).work known = n.work known + 0 :=
    work_of_same (fun _ => rfl) hpeers rfl (List.append_nil _).symm rfl
  rw [handleGraft, ProtocolMessage.cost]
  cases g.messageId with
  | none => exact Nat.succ_le_succ hsame.le
  | some i =>
    dsimp only [Option.isSome_some]
    split
    · refine Nat.succ_le_succ (le_of_eq ?_)
      exact work_of_same (fun _ => rfl) hpeers rfl rfl rfl
    · rw [if_pos rfl]
      omega

lemma handleProtocolMessage_work (h : n.missings.Valid) (hp : n.Partitioned)
    (msg : ProtocolMessage N I P) (hg : ∀ g, msg = .gossip g → g.message.id ∈ known) :
    (n.handleProtocolMessage msg).2.work known + 1 ≤ n.work known + msg.cost := by
  by_cases hs : msg.sender ∈ n.neighbours
  · rw [handleProtocolMessage.eq_def, if_pos (isKnownNode_iff.mpr hs)]
    cases msg with
    | gossip g => exact Nat.succ_le_succ (handleGossip_work h hp hs (hg g rfl))
    | ihave i => exact Nat.succ_le_succ (handleIhave_work h i)
    | graft g => exact handleGraft_work hs
    | prune g =>
      have hsame : (n.toLazy g.sender).work known = n.work known + 0 :=
        work_of_same (fun _ => rfl) (neighbours_toLazy hs) rfl (List.append_nil _).symm rfl
      exact Nat.succ_le_succ hsame.le
  · rw [handleProtocolMessage_unknown hs]
    have hpos := msg.one_le_cost
    dsimp only
    omega

lemma perform_work (hp : n.Partitioned) {c : Call N I P} (hc : c.Keeping ∧ c.Settled)
    (hfresh : ∀ msg, c = .broadcastMessage msg → msg.id ∈ known ∧ ¬ n.Holds msg.id) :
    Yields (n.perform c) (fun m => m.work known ≤ n.work known) := by
  cases c with
  | broadcastMessage msg =>
    obtain ⟨hmem, hnew⟩ := hfresh msg rfl
    have hpushed := cost_pushed hp ⟨n.id, msg, 0⟩
    refine .ok ?_
    rw [broadcastMessage_eq]
    exact work_of_new rfl rfl rfl le_rfl (by omega) hmem hnew
  | forgetMessage i => exact hc.1.elim
  | handleNeighborUp x => exact hc.2.elim
  | handleNeighborDown x => exact hc.2.elim
  | tick d =>
    exact .ok (le_of_eq (work_of_same (fun _ => rfl) rfl rfl (List.append_nil _).symm rfl))
  | reorder i j =>
    refine .ok (le_of_eq ?_)
    exact work_of_same (fun _ => HashMap.get_reorder) (neighbours_reorder i j) rfl
      (List.append_nil _).symm rfl
  | optionsMut o =>
    exact .ok (le_of_eq (work_of_same (fun _ => rfl) rfl rfl (List.append_nil _).symm rfl))

/-- What bounds the traffic of a node: what it holds and passes on is among `known`. -/
structure Within (known : Finset I) (n : Node N I P) : Prop where
  valid : n.missings.Valid
  partitioned : n.Partitioned
  held : ∀ i, n.Holds i → i ∈ known
  carried : ∀ d g, .send d (.gossip g) ∈ n.actions → g.message.id ∈ known

lemma Within.effect {input : Option (ProtocolMessage N I P)} (h : n.Within known)
    (he : Effect input n m acts) (hp : m.Partitioned)
    (hin : ∀ g, input = some (.gossip g) → g.message.id ∈ known) : m.Within known := by
  have hheld : ∀ i, m.Holds i → i ∈ known := by
    rintro i ⟨x, hx⟩
    rcases (he.stored i x).mp hx with hx | hx
    · exact h.held i ⟨x, hx⟩
    · obtain ⟨g, hg, he, _⟩ := mem_arrived hx
      have hi := hin g hg
      rwa [← he] at hi
  refine ⟨he.valid, hp, hheld, fun d g hg => ?_⟩
  rw [he.actions_eq, List.mem_append] at hg
  rcases hg with hg | hg
  · exact h.carried d g hg
  · exact hheld _ ⟨_, he.carried d g hg⟩

lemma Within.receive (h : n.Within known) (msg : ProtocolMessage N I P)
    (hg : ∀ g, msg = .gossip g → g.message.id ∈ known) :
    (n.handleProtocolMessage msg).2.Within known := by
  by_cases hs : msg.sender ∈ n.neighbours
  · obtain ⟨acts, he⟩ := handleProtocolMessage_effect h.valid msg hs
    refine h.effect he (h.partitioned.handleProtocolMessage msg) fun g hin => hg g ?_
    exact Option.some.inj hin
  · rw [handleProtocolMessage_unknown hs]
    exact h

lemma Within.perform (h : n.Within known) {c : Call N I P} (hc : c.Keeping)
    (hfresh : ∀ msg, c = .broadcastMessage msg →
      msg.id ∈ known ∧ ¬ n.Holds msg.id ∧ ¬ n.missings.Recorded msg.id) :
    Yields (n.perform c) (Within known) := by
  obtain ⟨m, hm, ⟨acts, he⟩, _⟩ := perform_effect h.valid hc fun msg hmsg => (hfresh msg hmsg).2
  refine ⟨m, hm, h.effect he ((h.partitioned.perform h.valid c).of_ok hm) fun g hg => ?_⟩
  cases c with
  | broadcastMessage msg =>
    cases hg
    exact (hfresh msg rfl).1
  | _ => cases hg

lemma Within.poll (h : n.Within known) : Yields n.pollAction (fun r => r.2.Within known ∧
    ∀ d g, r.1 = some (.send d (.gossip g)) → g.message.id ∈ known) := by
  obtain ⟨r, hr, m, acts, he, _, rfl⟩ := pollAction_effect h.valid
  have hpart := (h.partitioned.operate h.valid .pollAction).of_ok hr
  have hm : m.Within known := h.effect he ⟨hpart.disjoint, hpart.others⟩ (fun _ hg => by cases hg)
  refine ⟨_, hr, ⟨hm.valid, hpart, hm.held, fun d g hg => ?_⟩, fun d g hg => ?_⟩
  · exact hm.carried d g (List.mem_of_mem_tail hg)
  · exact hm.carried d g (List.mem_of_mem_head? hg)

lemma operate_keeps {i : Input N I P} (h : n.missings.Valid ∧ n.Partitioned) :
    Yields (n.operate i) (fun r => r.2.missings.Valid ∧ r.2.Partitioned) := by
  obtain ⟨r, hr, _, hposted⟩ := operate_posted h.1 i
  exact ⟨r, hr, hposted.valid, (h.2.operate h.1 i).of_ok hr⟩

end Node

/-- The moves of a network that repeats no message, and whose nodes keep their peers and what they
got. -/
def Unrepeated : Move N (Call N I P) → Prop
  | .call _ c => c.Keeping ∧ c.Settled
  | .duplicate _ => False
  | _ => True

/-- The moves of a network that is left alone. -/
def Undisturbed : Move N (Call N I P) → Prop
  | .call _ (.tick _) => True
  | .call _ (.reorder _ _) => True
  | .call _ _ => False
  | .duplicate _ => False
  | _ => True

/-- The step executes an action, or a message leaves the network in it. -/
def Spends (ids : Finset N) (e : Taken (Cluster N I P) (Move N (Call N I P))) : Prop :=
  (∃ p ∈ ids, executed p e ≠ []) ∨ e.after.flight.length < e.before.flight.length

instance (ids : Finset N) : DecidablePred (Spends (I := I) (P := P) ids) :=
  fun _ => inferInstanceAs (Decidable (_ ∨ _))

namespace Cluster

variable {ids : Finset N} {known : Finset I} {w w' w₀ : Cluster N I P}
  {mv : Move N (Call N I P)} {tr tr₀ : List (Taken (Cluster N I P) (Move N (Call N I P)))}

def cost (flight : List (N × ProtocolMessage N I P)) : ℕ :=
  (flight.map (fun e => e.2.cost)).sum

omit [DecidableEq N] [DecidableEq I] in
lemma cost_perm {f f' : List (N × ProtocolMessage N I P)} (h : f.Perm f') : cost f = cost f' :=
  (h.map _).sum_eq

omit [DecidableEq N] [DecidableEq I] in
lemma length_le_cost (f : List (N × ProtocolMessage N I P)) : f.length ≤ cost f := by
  induction f with
  | nil => exact le_rfl
  | cons e f ih =>
    have hpos := e.2.one_le_cost
    rw [cost, List.map_cons, List.sum_cons, List.length_cons]
    rw [cost] at ih
    omega

/-- The steps that the network can still take by itself, and for the messages of `known`. -/
def work (ids : Finset N) (known : Finset I) (w : Cluster N I P) : ℕ :=
  cost w.flight + ∑ p ∈ ids, (w.node p).work known

structure Within (ids : Finset N) (known : Finset I) (w : Cluster N I P) : Prop where
  node : ∀ p ∈ ids, (w.node p).Within known
  flight : ∀ d g, (d, .gossip g) ∈ w.flight → g.message.id ∈ known

lemma work_update (known : Finset I) (w : Cluster N I P) {p : N} (hp : p ∈ ids) (m : Node N I P)
    (f : List (N × ProtocolMessage N I P)) :
    work ids known { w.update p m with flight := f } + (w.node p).work known + cost w.flight =
      work ids known w + m.work known + cost f := by
  have hsum : ∑ q ∈ ids, ((w.update p m).node q).work known + _ = _ :=
    Network.sum_moved (Node.work known) hp fun q hq => Network.node_update_of_ne w hq m
  rw [Network.node_update_self] at hsum
  rw [work, work]
  change cost f + ∑ q ∈ ids, ((w.update p m).node q).work known + _ + _ = _
  omega

lemma not_spends (hx : ∀ p ∈ ids, executed p ⟨w, mv, w'⟩ = [])
    (hf : w.flight.length ≤ w'.flight.length) : ¬ Spends ids ⟨w, mv, w'⟩ := by
  rintro (⟨p, hp, hne⟩ | hless)
  · exact hne (hx p hp)
  · exact absurd hless (by dsimp only; omega)

omit [DecidableEq N] [DecidableEq I] in
lemma cost_append (f f' : List (N × ProtocolMessage N I P)) :
    cost (f ++ f') = cost f + cost f' := by
  rw [cost, List.map_append, List.sum_append, cost, cost]

omit [DecidableEq N] [DecidableEq I] in
lemma cost_taken (a : Option (Action N I P)) : cost (a.bind Action.outgoing).toList +
    (if a.isSome then 1 else 0) = (a.map Action.cost).getD 0 := by
  cases a with
  | none => rfl
  | some a => cases a <;> rfl

lemma Within.polled (h : Within ids known w) {p : N} (hp : p ∈ ids) {a : Option (Action N I P)}
    {m : Node N I P} (hpoll : (w.node p).pollAction = .ok (a, m))
    (hw : w' = { w.update p m with flight := w.flight ++ (a.bind Action.outgoing).toList }) :
    Within ids known w' ∧
      work ids known w' + (if Spends ids ⟨w, .poll p, w'⟩ then 1 else 0) ≤ work ids known w := by
  obtain ⟨hm, hout⟩ := (h.node p hp).poll.of_ok hpoll
  have hwork : m.work known + (a.map Action.cost).getD 0 ≤ (w.node p).work known :=
    (Node.pollAction_work (h.node p hp).valid).of_ok hpoll
  have hcost := cost_taken a
  have hsum := work_update known w hp m (w.flight ++ (a.bind Action.outgoing).toList)
  rw [cost_append] at hsum
  subst hw
  have hspent : (if Spends ids ⟨w, .poll p,
      { w.update p m with flight := w.flight ++ (a.bind Action.outgoing).toList }⟩ then 1 else 0) ≤
      if a.isSome then 1 else 0 := by
    cases a with
    | none =>
      rw [if_neg (not_spends (fun q _ => ?_) (by simp))]
      · exact Nat.zero_le _
      · simp only [executed]
        split
        next hq =>
          rw [← hq, hpoll]
          rfl
        next => rfl
    | some a => split <;> simp
  refine ⟨⟨Network.forall_update (Q := fun _ (n : Node N I P) => n.Within known) h.node hm,
    fun d g hg => ?_⟩, by omega⟩
  rcases List.mem_append.mp hg with hg | hg
  · exact h.flight d g hg
  · cases a with
    | none => simp at hg
    | some a =>
      cases a with
      | deliver x => simp at hg
      | send d' msg =>
        obtain ⟨rfl, rfl⟩ : d = d' ∧ .gossip g = msg := by simpa using hg
        exact hout d g rfl

/-- The step lemma: every step that counts is paid for. -/
lemma Within.step (h : Within ids known w) (hs : Network.step protocol ids w mv = .ok w')
    (hmv : Unrepeated mv)
    (hfresh : ∀ p ∈ ids, ∀ msg, mv = .call p (.broadcastMessage msg) →
      msg.id ∈ known ∧ ¬ (w.node p).Holds msg.id ∧ ¬ (w.node p).missings.Recorded msg.id) :
    Within ids known w' ∧
      work ids known w' + (if Spends ids ⟨w, mv, w'⟩ then 1 else 0) ≤ work ids known w := by
  have hone : (if Spends ids ⟨w, mv, w'⟩ then 1 else 0) ≤ 1 := by split <;> omega
  cases Network.change_of_step hs with
  | idle hidle =>
    refine ⟨h, ?_⟩
    rw [if_neg (not_spends (fun p hp => ?_) le_rfl)]
    · omega
    · cases mv with
      | poll q =>
        have hq : q ≠ p := fun hq => hidle q rfl (hq ▸ hp)
        simp [executed, hq]
      | _ => rfl
  | @called p c m hp hc =>
    have hnew := fun msg hmsg => hfresh p hp msg (congrArg (Move.call p) hmsg)
    have hm := ((h.node p hp).perform hmv.1 hnew).of_ok hc
    have hle := (Node.perform_work (h.node p hp).partitioned hmv fun msg hmsg =>
      ⟨(hnew msg hmsg).1, (hnew msg hmsg).2.1⟩).of_ok hc
    have hsum : work ids known (w.update p m) + _ + _ = _ := work_update known w hp m w.flight
    have hno : ¬ Spends ids ⟨w, .call p c, w.update p m⟩ := not_spends (fun q _ => rfl) le_rfl
    refine ⟨⟨Network.forall_update (Q := fun _ (n : Node N I P) => n.Within known) h.node hm,
      h.flight⟩, ?_⟩
    rw [if_neg hno]
    omega
  | @polled p out m hp hc =>
    obtain ⟨⟨a, n⟩, hpoll, hout⟩ := bind_eq_ok.mp hc
    cases hout
    exact h.polled hp hpoll rfl
  | @delivered i d msg m rest hd hf hc =>
    cases hc
    have hg : ∀ g, msg = .gossip g → g.message.id ∈ known := by
      rintro g rfl
      exact h.flight d g (hf.mem_iff.mpr List.mem_cons_self)
    have hle := Node.handleProtocolMessage_work (h.node d hd).valid (h.node d hd).partitioned msg hg
    have hsum := work_update known w hd ((w.node d).handleProtocolMessage msg).2 rest
    have hcost : cost w.flight = msg.cost + cost rest := cost_perm hf
    refine ⟨⟨Network.forall_update (Q := fun _ (n : Node N I P) => n.Within known) h.node
      ((h.node d hd).receive msg hg), fun d' g hin => ?_⟩, by omega⟩
    exact h.flight d' g (hf.mem_iff.mpr (List.mem_cons_of_mem _ hin))
  | duplicated => exact hmv.elim
  | @discarded i d msg rest hd hf =>
    have hcost : cost w.flight = msg.cost + cost rest := cost_perm hf
    have hpos := msg.one_le_cost
    refine ⟨⟨h.node, fun d' g hin => ?_⟩, ?_⟩
    · exact h.flight d' g (hf.mem_iff.mpr (List.mem_cons_of_mem _ hin))
    · rw [work, work]
      dsimp only
      omega
  | @lost i rest hf =>
    refine ⟨⟨h.node, fun d g hin => h.flight d g (hf.subset hin)⟩, ?_⟩
    obtain ⟨gone, hgone⟩ := hf.exists_perm_append
    have hcost := cost_perm hgone
    have hlen := length_le_cost gone
    have hsplit := hgone.length_eq
    rw [cost_append] at hcost
    rw [List.length_append] at hsplit
    have hspent : (if Spends ids ⟨w, .lose i, { w with flight := rest }⟩ then 1 else 0) ≤
        gone.length := by
      cases gone with
      | nil =>
        rw [if_neg (not_spends (fun q _ => rfl) (by simpa using hsplit.le))]
        exact Nat.zero_le _
      | cons e gone =>
        rw [List.length_cons]
        omega
    rw [work, work]
    dsimp only
    omega

lemma unheard_of_run (h₀ : Sound ids [] w₀) (h : Run (Network.step protocol ids) w₀ tr w)
    (hkeep : ∀ e ∈ tr, Keeping e.input) (hfresh : ((broadcasts ids tr).map Message.id).Nodup) :
    Sound ids (broadcasts ids tr) w ∧ ∀ e ∈ tr, ∀ p ∈ ids, ∀ msg,
      e.input = .call p (.broadcastMessage msg) → msg ∈ broadcasts ids tr ∧
        ¬ (e.before.node p).Holds msg.id ∧ ¬ (e.before.node p).missings.Recorded msg.id := by
  induction h with
  | start => exact ⟨by simpa [broadcasts] using h₀, by simp⟩
  | @next tr w w' mv hr hs ih =>
    rw [broadcasts_concat] at hfresh ⊢
    have hprefix : ((broadcasts ids tr).map Message.id).Nodup := by
      rw [List.map_append] at hfresh
      exact hfresh.of_append_left
    obtain ⟨hw, hold⟩ := ih (fun e he => hkeep e (List.mem_append_left _ he)) hprefix
    constructor
    · rcases hw.cases hs (hkeep ⟨w, mv, w'⟩ (by simp)) hfresh with ⟨_, _, _, _, _, hm⟩ | hstill
      · exact hw.moved hm
      · rw [hstill.silent]
        simpa using hw.still hstill
    · intro e he p hp msg hmsg
      rcases List.mem_append.mp he with he | he
      · obtain ⟨hmem, hnew⟩ := hold e he p hp msg hmsg
        exact ⟨List.mem_append_left _ hmem, hnew⟩
      · obtain rfl := List.mem_singleton.mp he
        obtain rfl : mv = .call p (.broadcastMessage msg) := hmsg
        have hcast : broadcastOf ids (.call p (.broadcastMessage msg)) = some msg := if_pos hp
        have hnew : ∀ x, (⟨msg.id, x⟩ : Message I P) ∉ broadcasts ids tr := by
          intro x hx
          rw [hcast, List.map_append, List.nodup_append] at hfresh
          exact hfresh.2.2 msg.id (List.mem_map.mpr ⟨_, hx, rfl⟩) msg.id (by simp) rfl
        refine ⟨by simp [hcast], ?_, fun hrec => ?_⟩
        · rintro ⟨x, hx⟩
          exact hnew x (hw.stored p hp msg.id x hx)
        · obtain ⟨x, hx⟩ := hw.recorded p hp msg.id hrec
          exact hnew x hx

omit [DecidableEq N] [DecidableEq I] in
lemma keeping_of_unrepeated (h : Unrepeated mv) : Keeping mv := by
  cases mv with
  | call p c => exact h.1
  | _ => trivial

lemma within_of_silent (h : Silent w) : Within ids known w where
  node p _ := ⟨(h.quiet p).calm.valid, ⟨fun x _ => (h.quiet p).lazy x, by
    rw [(h.quiet p).id_eq]
    exact (h.quiet p).loopless⟩, fun i hi => absurd hi ((h.quiet p).unheld i), fun d g hg => by
    simp [(h.quiet p).actions] at hg⟩
  flight d g hg := by simp [h.flight] at hg

/-- Before anything is broadcast, each message of `known` has its whole way to go. -/
lemma work_of_silent (h : Silent w) : work ids known w =
    known.card * ∑ p ∈ ids, (8 * (w.node p).neighbours.card + 5) := by
  rw [work, h.flight, Finset.mul_sum]
  refine (Nat.zero_add _).trans (Finset.sum_congr rfl fun p _ => ?_)
  have hlacks : (w.node p).lacks known = known := by
    refine Finset.filter_true_of_mem fun i _ => ?_
    by_contra hne
    exact (h.quiet p).unheld i (Option.ne_none_iff_exists'.mp hne)
  rw [Node.work, (h.quiet p).actions, (h.quiet p).calm.waiting, hlacks]
  simp [Nat.mul_comm]

/-- The traffic of a network is bounded by its broadcasts. Once the nodes know their peers, and as
long as messages are not repeated and the links stay, each broadcast leads to at most eight steps
for each peer of a node and five for the node, whatever is lost, reordered or timed out. -/
theorem traffic_bounded {options : N → NodeOptions} {choices : N → List ℕ}
    (hsetup : Run (Network.step protocol ids) (fresh options choices) tr₀ w₀)
    (hup : ∀ e ∈ tr₀, SettingUp e.input) (h : Run (Network.step protocol ids) w₀ tr w)
    (hmoves : ∀ e ∈ tr, Unrepeated e.input)
    (hfresh : ((broadcasts ids tr).map Message.id).Nodup) :
    tr.countP (fun e => Spends ids e) ≤
      (broadcasts ids tr).length * ∑ p ∈ ids, (8 * (w₀.node p).neighbours.card + 5) := by
  have hsilent := silent_of_setup hsetup hup
  obtain ⟨_, hnew⟩ := unheard_of_run (sound_of_setup hsetup hup) h
    (fun e he => keeping_of_unrepeated (hmoves e he)) hfresh
  obtain ⟨known, hknown⟩ :
    ∃ known, known = ((broadcasts ids tr).map Message.id).toFinset := ⟨_, rfl⟩
  have hcard : known.card = (broadcasts ids tr).length := by
    rw [hknown, List.toFinset_card_of_nodup hfresh, List.length_map]
  have hcount := (h.count_le (P := Within ids known) (Q := Spends ids) (f := work ids known)
    (C := fun e => Unrepeated e.input ∧ ∀ p ∈ ids, ∀ msg,
      e.input = .call p (.broadcastMessage msg) → msg.id ∈ known ∧
        ¬ (e.before.node p).Holds msg.id ∧ ¬ (e.before.node p).missings.Recorded msg.id)
    (fun _ _ _ hw hs hc => hw.step hs hc.1 hc.2) (within_of_silent hsilent) ?_).2
  · rw [work_of_silent hsilent, hcard] at hcount
    omega
  · intro e he
    refine ⟨hmoves e he, fun p hp msg hmsg => ?_⟩
    obtain ⟨hmem, hfree⟩ := hnew e he p hp msg hmsg
    refine ⟨?_, hfree⟩
    rw [hknown, List.mem_toFinset]
    exact List.mem_map.mpr ⟨msg, hmem, rfl⟩

/-- Node 0 broadcasts to the node at the other end of a line, and the second message is lost. -/
def halted : List (Move ℕ (Call ℕ ℕ ℕ)) :=
  [.call 0 (.broadcastMessage ⟨7, 70⟩), .poll 0, .poll 0, .deliver 0, .poll 1, .poll 1, .lose 0,
    .poll 2]

theorem traffic_bounded_halted :
    ∃ (setup tr : List (Taken (Cluster ℕ ℕ ℕ) (Move ℕ (Call ℕ ℕ ℕ)))) (w : Cluster ℕ ℕ ℕ),
      Run (Network.step protocol {0, 1, 2}) (fresh (fun _ => {}) (fun _ => [])) setup lined ∧
        Run (Network.step protocol {0, 1, 2}) lined tr w ∧
        (tr.countP fun e => Spends {0, 1, 2} e) = 6 ∧
        (tr.countP fun e => Spends {0, 1, 2} e) ≤ (broadcasts {0, 1, 2} tr).length *
          ∑ p ∈ {0, 1, 2}, (8 * (lined.node p).neighbours.card + 5) := by
  have hsetup : follow (Network.step protocol {0, 1, 2})
      (fresh (fun _ => {}) (fun _ => [])) line = .ok (_, lined) := rfl
  have hrun : follow (Network.step protocol {0, 1, 2}) lined halted = .ok _ := rfl
  have hbound := traffic_bounded (Run.of_follow line hsetup)
    (Run.inputs_of_follow line hsetup (by simp [line, SettingUp])) (Run.of_follow halted hrun)
    (Run.inputs_of_follow halted hrun (by simp [halted, Unrepeated, Call.Keeping, Call.Settled]))
    (by decide)
  exact ⟨_, _, _, Run.of_follow line hsetup, Run.of_follow halted hrun, by decide, hbound⟩

lemma kept_of_run {options : N → NodeOptions} {choices : N → List ℕ}
    (h : Run (Network.step protocol ids) (fresh options choices) tr w) :
    ∀ p ∈ ids, (w.node p).missings.Valid ∧ (w.node p).Partitioned := by
  refine h.invariant (P := fun w : Cluster N I P => ∀ p ∈ ids,
    (w.node p).missings.Valid ∧ (w.node p).Partitioned) ?_ ?_
  · intro w mv w' hw hs
    have hupdate : ∀ {p m}, (m : Node N I P).missings.Valid ∧ m.Partitioned → ∀ q ∈ ids,
        ((w.update p m).node q).missings.Valid ∧ ((w.update p m).node q).Partitioned :=
      Network.forall_update (Q := fun _ (m : Node N I P) => m.missings.Valid ∧ m.Partitioned) hw
    cases Network.change_of_step hs with
    | idle => exact hw
    | @called p c m hp hc =>
      have hoperate : (w.node p).operate (.call c) = .ok (none, m) := by
        change (w.node p).perform c = .ok m at hc
        rw [Node.operate, hc]
        rfl
      exact hupdate ((Node.operate_keeps (hw p hp)).of_ok hoperate)
    | @polled p out m hp hc =>
      obtain ⟨⟨a, n⟩, hpoll, hout⟩ := bind_eq_ok.mp hc
      cases hout
      exact hupdate ((Node.operate_keeps (i := .pollAction) (hw p hp)).of_ok hpoll)
    | @delivered i d msg m rest hd hf hc =>
      cases hc
      exact hupdate ((Node.operate_keeps (i := .receive msg) (hw d hd)).of_ok rfl)
    | @duplicated i d msg m hd hm hc =>
      cases hc
      exact hupdate ((Node.operate_keeps (i := .receive msg) (hw d hd)).of_ok rfl)
    | discarded => exact hw
    | lost => exact hw
  · exact fun p _ => ⟨MissingMessages.new_valid _, Node.withOptions_partitioned p _ _⟩

lemma exists_within (h : ∀ p ∈ ids, (w.node p).missings.Valid ∧ (w.node p).Partitioned) :
    ∃ known, Within ids known w := by
  refine ⟨ids.biUnion (fun p => (w.node p).messages.keys.toFinset) ∪
    ((sent ids w).filterMap (fun e => e.2.gossiped)).toFinset, fun p hp =>
    ⟨(h p hp).1, (h p hp).2, fun i hi => ?_, fun d g hg => ?_⟩, fun d g hg => ?_⟩
  · refine Finset.mem_union_left _ (Finset.mem_biUnion.mpr ⟨p, hp, ?_⟩)
    exact List.mem_toFinset.mpr (HashMap.mem_keys.mpr hi)
  · refine Finset.mem_union_right _ (Multiset.mem_toFinset.mpr ?_)
    refine (Multiset.mem_filterMap _ _).mpr ⟨(d, .gossip g), ?_, rfl⟩
    exact Network.mem_transit.mpr (.inr ⟨p, hp, Multiset.mem_coe.mpr (mem_outgoing.mpr hg)⟩)
  · refine Finset.mem_union_right _ (Multiset.mem_toFinset.mpr ?_)
    exact (Multiset.mem_filterMap _ _).mpr ⟨(d, .gossip g), Network.mem_transit.mpr (.inl hg), rfl⟩

/-- Left alone, a network comes to rest. Whatever has happened to it before, only so many actions
can be executed and so many messages can arrive as long as no application calls a node and no
message is repeated, however the clocks go on. -/
theorem comes_to_rest {options : N → NodeOptions} {choices : N → List ℕ}
    (hbefore : Run (Network.step protocol ids) (fresh options choices) tr₀ w₀) :
    ∃ bound, ∀ tr w, Run (Network.step protocol ids) w₀ tr w →
      (∀ e ∈ tr, Undisturbed e.input) → tr.countP (fun e => Spends ids e) ≤ bound := by
  obtain ⟨known, hknown⟩ := exists_within (kept_of_run hbefore)
  refine ⟨work ids known w₀, fun tr w h hmoves => ?_⟩
  have hcount := (h.count_le (P := Within ids known) (Q := Spends ids) (f := work ids known)
    (C := fun e => Undisturbed e.input) (fun t i u hw hs hc => hw.step hs ?_ ?_) hknown hmoves).2
  · omega
  · cases i with
    | call p c => cases c <;> first | exact hc.elim | exact ⟨trivial, trivial⟩
    | _ => exact hc
  · rintro p _ msg rfl
    exact hc.elim

/-- Node 1 gets a message twice, loses its peer, and is told of another; node 0 forgets it. -/
def disturbed : List (Move ℕ (Call ℕ ℕ ℕ)) :=
  [.call 0 (.handleNeighborUp 1), .call 1 (.handleNeighborUp 0),
    .call 0 (.broadcastMessage ⟨7, 70⟩), .call 0 (.forgetMessage 7), .poll 0, .poll 0,
    .duplicate 0, .call 1 (.handleNeighborDown 0), .call 1 (.handleNeighborUp 2)]

theorem comes_to_rest_disturbed :
    ∃ (tr₀ : List (Taken (Cluster ℕ ℕ ℕ) (Move ℕ (Call ℕ ℕ ℕ)))) (w₀ : Cluster ℕ ℕ ℕ),
      Run (Network.step protocol {0, 1}) (fresh (fun _ => {}) (fun _ => [])) tr₀ w₀ ∧
        w₀.flight.length = 1 ∧ (w₀.node 1).actions.length = 2 ∧
        ∃ bound, ∀ tr w, Run (Network.step protocol {0, 1}) w₀ tr w →
          (∀ e ∈ tr, Undisturbed e.input) → (tr.countP fun e => Spends {0, 1} e) ≤ bound := by
  have hrun : follow (Network.step protocol {0, 1})
      (fresh (fun _ => {}) (fun _ => [])) disturbed = .ok _ := rfl
  exact ⟨_, _, Run.of_follow disturbed hrun, by decide, by decide,
    comes_to_rest (Run.of_follow disturbed hrun)⟩

end Cluster

end QuicP2p.Plumtree
