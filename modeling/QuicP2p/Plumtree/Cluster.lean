import QuicP2p.Plumtree.Handlers
import QuicP2p.Library.Network

/-! Networks of Plumtree nodes, and what one step of them changes. -/

namespace QuicP2p.Plumtree

open Library

variable {N I P : Type} [DecidableEq N] [DecidableEq I]

inductive Call (N I P : Type)
  | broadcastMessage (message : Message I P)
  | forgetMessage (messageId : I)
  | handleNeighborUp (node : N)
  | handleNeighborDown (node : N)
  | tick (duration : Duration)
  | reorder (i j : ℕ)
  | optionsMut (options : NodeOptions)
  deriving DecidableEq

def Node.perform (n : Node N I P) : Call N I P → Exec (Node N I P)
  | .broadcastMessage message => .ok (n.broadcastMessage message)
  | .forgetMessage messageId => .ok (n.forgetMessage messageId).2
  | .handleNeighborUp node => .ok (n.handleNeighborUp node)
  | .handleNeighborDown node => n.handleNeighborDown node
  | .tick duration => .ok (n.tick duration)
  | .reorder i j => .ok (n.reorder i j)
  | .optionsMut options => .ok (n.optionsMut options)

def protocol : Protocol Stop N (Node N I P) (ProtocolMessage N I P) (Call N I P) where
  call := Node.perform
  receive n m := .ok (n.handleProtocolMessage m).2
  poll n := do
    let (action, n) ← n.pollAction
    .ok (action.bind Action.outgoing, n)

abbrev Cluster (N I P : Type) := Network N (Node N I P) (ProtocolMessage N I P)

/-- The nodes at the start, each with its own options. -/
def fresh (options : N → NodeOptions) (choices : N → List ℕ) : Cluster N I P :=
  ⟨fun p => Node.withOptions p (options p) (choices p), []⟩

/-- The messages that wait in the queue of a node. -/
def Node.queued (n : Node N I P) : Multiset (N × ProtocolMessage N I P) :=
  n.actions.filterMap Action.outgoing

abbrev sent (ids : Finset N) (w : Cluster N I P) : Multiset (N × ProtocolMessage N I P) :=
  w.transit Node.queued ids

/-- The message that a move broadcasts. -/
def broadcastOf (ids : Finset N) : Move N (Call N I P) → Option (Message I P)
  | .call p (.broadcastMessage m) => if p ∈ ids then some m else none
  | _ => none

/-- The messages broadcast in the steps of a run, in order. -/
def broadcasts (ids : Finset N) (tr : List (Taken (Cluster N I P) (Move N (Call N I P)))) :
    List (Message I P) :=
  tr.filterMap (fun e => broadcastOf ids e.input)

/-- The actions that a step takes from the queue of a node. -/
def executed (p : N) (e : Taken (Cluster N I P) (Move N (Call N I P))) : List (Action N I P) :=
  match e.input with
  | .poll q => if q = p then ((e.before.node p).pollAction.toOption.bind Prod.fst).toList else []
  | _ => []

/-- The calls of an application that keeps the messages it got. -/
def Call.Keeping : Call N I P → Prop
  | .forgetMessage _ => False
  | _ => True

/-- The calls that leave the peers of a node as they are. -/
def Call.Settled : Call N I P → Prop
  | .handleNeighborUp _ => False
  | .handleNeighborDown _ => False
  | _ => True

/-- The input that a call is to the node. -/
def Call.input (n : Node N I P) : Call N I P → Option (ProtocolMessage N I P)
  | .broadcastMessage m => some (.gossip ⟨n.id, m, 0⟩)
  | _ => none

namespace Node

variable {n m : Node N I P} {acts : List (Action N I P)} {input : Option (ProtocolMessage N I P)}

lemma tick_effect (hn : n.missings.Valid) (d : Duration) : Effect none n (n.tick d) [] :=
  .still hn rfl rfl (List.append_nil _).symm (fun _ => rfl) (by simp) (fun _ hx => .inl hx)
    (fun _ ha => .inl ha) (fun _ hi => .inl hi) (fun _ hm => by simp at hm)

lemma reorder_effect (hn : n.missings.Valid) (i j : ℕ) : Effect none n (n.reorder i j) [] :=
  .still hn rfl rfl (List.append_nil _).symm (fun _ => HashMap.get_reorder) (by simp)
    (fun x hx => .inl (by rwa [neighbours_reorder] at hx)) (fun _ ha => .inl ha)
    (fun _ hi => .inl hi) (fun _ hm => by simp at hm)

lemma optionsMut_effect (hn : n.missings.Valid) (options : NodeOptions) :
    Effect none n (n.optionsMut options) [] :=
  .still hn rfl rfl (List.append_nil _).symm (fun _ => rfl) (by simp [optionsMut])
    (fun _ hx => .inl hx) (fun _ ha => .inl ha) (fun _ hi => .inl hi) (fun _ hm => by simp at hm)

lemma perform_effect (hn : n.missings.Valid) {c : Call N I P} (hc : c.Keeping)
    (hfresh : ∀ m, c = .broadcastMessage m → ¬ n.Holds m.id ∧ ¬ n.missings.Recorded m.id) :
    Yields (n.perform c) (fun m => (∃ acts, Effect (c.input n) n m acts) ∧
      (c.Settled → m.neighbours = n.neighbours)) := by
  cases c with
  | broadcastMessage m =>
    obtain ⟨hh, hr⟩ := hfresh m rfl
    exact .ok ⟨broadcastMessage_effect hn hh hr, fun _ => neighbours_broadcastMessage m⟩
  | forgetMessage i => exact hc.elim
  | handleNeighborUp x => exact .ok ⟨handleNeighborUp_effect hn x, fun h => h.elim⟩
  | handleNeighborDown x =>
    exact (handleNeighborDown_effect hn x).mono fun _ hm => ⟨hm.1, fun h => h.elim⟩
  | tick d => exact .ok ⟨⟨_, tick_effect hn d⟩, fun _ => rfl⟩
  | reorder i j => exact .ok ⟨⟨_, reorder_effect hn i j⟩, fun _ => neighbours_reorder i j⟩
  | optionsMut o => exact .ok ⟨⟨_, optionsMut_effect hn o⟩, fun _ => rfl⟩

lemma Effect.queued_eq (h : Effect input n m acts) :
    m.queued = n.queued + ↑(acts.filterMap Action.outgoing) := by
  rw [queued, h.actions_eq, List.filterMap_append, ← Multiset.coe_add, queued]

omit [DecidableEq N] [DecidableEq I] in
lemma queued_poll (n : Node N I P) : n.queued =
    ↑(n.actions.head?.bind Action.outgoing).toList +
      ({ n with actions := n.actions.tail } : Node N I P).queued := by
  simp only [queued]
  cases n.actions with
  | nil => rfl
  | cons a as => cases a <;> rfl

end Node

namespace Cluster

/-- Why a node acts in a step of the network. -/
inductive Trigger (ids : Finset N) (w : Cluster N I P) :
    Move N (Call N I P) → N → Option (ProtocolMessage N I P) → Prop
  | internal {mv : Move N (Call N I P)} {p : N} (hb : broadcastOf ids mv = none) :
      Trigger ids w mv p none
  | broadcast {p : N} (hp : p ∈ ids) (m : Message I P) :
      Trigger ids w (.call p (.broadcastMessage m)) p (some (.gossip ⟨(w.node p).id, m, 0⟩))
  | arrival {mv : Move N (Call N I P)} {p : N} {m : ProtocolMessage N I P}
      (hb : broadcastOf ids mv = none) (hm : (p, m) ∈ sent ids w)
      (hs : m.sender ∈ (w.node p).neighbours) : Trigger ids w mv p (some m)

/-- The node at `p` moves to `m` up to its queue; the messages of `used` are used up. -/
structure Moved (ids : Finset N) (w w' : Cluster N I P) (mv : Move N (Call N I P)) (p : N)
    (m : Node N I P) (input : Option (ProtocolMessage N I P)) (acts : List (Action N I P))
    (used : Multiset (N × ProtocolMessage N I P)) : Prop where
  mem : p ∈ ids
  trigger : Trigger ids w mv p input
  effect : Node.Effect input (w.node p) m acts
  others : ∀ q, q ≠ p → w'.node q = w.node q ∧ executed q ⟨w, mv, w'⟩ = []
  self : ∃ rest, w'.node p = { m with actions := rest } ∧
    executed p ⟨w, mv, w'⟩ ++ rest = (w.node p).actions ++ acts
  sent_eq : used + sent ids w' = sent ids w + ↑(acts.filterMap Action.outgoing)
  used_le : used ≤ sent ids w
  used_eq : ∀ e ∈ used, e.1 = p ∧ (input = some e.2 ∨ e.2.sender ∉ (w.node p).neighbours)
  settled : (∀ q c, mv = .call q c → c.Settled) → m.neighbours = (w.node p).neighbours

/-- No node acts. -/
structure Still (ids : Finset N) (w w' : Cluster N I P) (mv : Move N (Call N I P)) : Prop where
  node_eq : w'.node = w.node
  silent : broadcastOf ids mv = none
  executed_eq : ∀ p ∈ ids, executed p ⟨w, mv, w'⟩ = []
  sent_le : sent ids w' ≤ sent ids w
  kept : (∀ i, mv ≠ .lose i) → ∀ d ∈ ids, ∀ m, (d, m) ∈ sent ids w → (d, m) ∈ sent ids w'

variable {ids : Finset N} {w w' : Cluster N I P} {mv : Move N (Call N I P)}

omit [DecidableEq I] in
lemma broadcastOf_eq_some {m : Message I P} (h : broadcastOf ids mv = some m) :
    ∃ p ∈ ids, mv = .call p (.broadcastMessage m) := by
  unfold broadcastOf at h
  split at h
  next p m' =>
    split_ifs at h with hp
    cases h
    exact ⟨p, hp, rfl⟩
  next => cases h

/-- What one step of the network does, if it forgets no message and broadcasts a new one. -/
lemma moved_of_step (hs : Network.step protocol ids w mv = .ok w')
    (hwf : ∀ p ∈ ids, (w.node p).WellFormed) (hkeep : ∀ p c, mv = .call p c → c.Keeping)
    (hfresh : ∀ p ∈ ids, ∀ m, mv = .call p (.broadcastMessage m) →
      ¬ (w.node p).Holds m.id ∧ ¬ (w.node p).missings.Recorded m.id) :
    (∃ p m input acts used, Moved ids w w' mv p m input acts used) ∨ Still ids w w' mv := by
  cases Network.change_of_step hs with
  | idle hidle =>
    refine .inr ⟨rfl, ?_, ?_, le_rfl, fun _ _ _ _ h => h⟩
    · cases hb : broadcastOf ids mv with
      | none => rfl
      | some m =>
        obtain ⟨p, hp, rfl⟩ := broadcastOf_eq_some hb
        exact absurd hp (hidle p rfl)
    · intro p hp
      cases mv with
      | poll q =>
        have hq : q ≠ p := fun h => hidle q rfl (h ▸ hp)
        simp [executed, hq]
      | _ => rfl
  | @called p c s hp hc =>
    obtain ⟨⟨acts, he⟩, hset⟩ := (Node.perform_effect (hwf p hp).valid (hkeep p c rfl)
      (fun m hm => hfresh p hp m (by rw [hm]))).of_ok hc
    refine .inl ⟨p, s, _, acts, 0, hp, ?_, he,
      fun q hq => ⟨Network.node_update_of_ne w hq s, rfl⟩,
      ⟨s.actions, Network.node_update_self w p s, he.actions_eq⟩, ?_, zero_le, by simp,
      fun h => hset (h p c rfl)⟩
    · cases c with
      | broadcastMessage m => exact .broadcast hp m
      | _ => exact .internal rfl
    · exact Network.transit_update hp (by rw [he.queued_eq, zero_add, add_assoc])
  | @polled p out s hp hc =>
    obtain ⟨⟨a, n⟩, hpoll, hout⟩ := bind_eq_ok.mp hc
    cases hout
    obtain ⟨m, acts, he, hset, hr⟩ := (Node.pollAction_effect (hwf p hp).valid).of_ok hpoll
    cases hr
    refine .inl ⟨p, m, none, acts, 0, hp, .internal rfl, he,
      fun q hq => ⟨Network.node_update_of_ne w hq _, by simp [executed, Ne.symm hq]⟩,
      ⟨m.actions.tail, Network.node_update_self w p _, ?_⟩, ?_, zero_le, by simp, fun _ => hset⟩
    · rw [← he.actions_eq]
      simp only [executed, if_true, hpoll]
      cases m.actions <;> rfl
    · refine Network.transit_update hp ?_
      rw [zero_add, ← Multiset.coe_add, add_assoc, add_assoc, ← Node.queued_poll, he.queued_eq]
  | @delivered i d m s rest hd hf hc =>
    cases hc
    have hflight : (w.flight : Multiset (N × ProtocolMessage N I P)) = (d, m) ::ₘ ↑rest :=
      Multiset.coe_eq_coe.mpr hf
    have hin : (d, m) ∈ sent ids w := Network.mem_transit.mpr (.inl (hf.mem_iff.mpr (by simp)))
    by_cases hk : m.sender ∈ (w.node d).neighbours
    · obtain ⟨acts, he⟩ := Node.handleProtocolMessage_effect (hwf d hd).valid m hk
      refine .inl ⟨d, _, some m, acts, {(d, m)}, hd, .arrival rfl hin hk, he,
        fun q hq => ⟨Network.node_update_of_ne w hq _, rfl⟩,
        ⟨_, Network.node_update_self w d _, he.actions_eq⟩, ?_,
        Multiset.singleton_le.mpr hin, ?_, fun _ => Node.neighbours_handleProtocolMessage m⟩
      · refine Network.transit_update hd ?_
        rw [hflight, he.queued_eq, Multiset.singleton_add, Multiset.cons_add, Multiset.cons_add,
          add_assoc]
      · simp
    · have hs : (w.node d).handleProtocolMessage m = (false, w.node d) :=
        Node.handleProtocolMessage_unknown hk
      rw [hs]
      refine .inl ⟨d, w.node d, none, [], {(d, m)}, hd, .internal rfl, .refl (hwf d hd).valid,
        fun q hq => ⟨Network.node_update_of_ne w hq _, rfl⟩,
        ⟨_, Network.node_update_self w d _, (List.append_nil _).symm⟩, ?_,
        Multiset.singleton_le.mpr hin, ?_, fun _ => rfl⟩
      · refine Network.transit_update hd ?_
        rw [hflight, Multiset.singleton_add, Multiset.cons_add]
        simp
      · simpa using hk
  | @duplicated i d m s hd hm hc =>
    cases hc
    have hin : (d, m) ∈ sent ids w := Network.mem_transit.mpr (.inl hm)
    by_cases hk : m.sender ∈ (w.node d).neighbours
    · obtain ⟨acts, he⟩ := Node.handleProtocolMessage_effect (hwf d hd).valid m hk
      refine .inl ⟨d, _, some m, acts, 0, hd, .arrival rfl hin hk, he,
        fun q hq => ⟨Network.node_update_of_ne w hq _, rfl⟩,
        ⟨_, Network.node_update_self w d _, he.actions_eq⟩, ?_,
        zero_le, by simp, fun _ => Node.neighbours_handleProtocolMessage m⟩
      exact Network.transit_update hd (by rw [he.queued_eq, zero_add, add_assoc])
    · have hs : (w.node d).handleProtocolMessage m = (false, w.node d) :=
        Node.handleProtocolMessage_unknown hk
      rw [hs, Network.update_node]
      exact .inr ⟨rfl, rfl, fun _ _ => rfl, le_rfl, fun _ _ _ _ h => h⟩
  | @discarded i d m rest hd hf =>
    have hflight : (w.flight : Multiset (N × ProtocolMessage N I P)) = (d, m) ::ₘ ↑rest :=
      Multiset.coe_eq_coe.mpr hf
    refine .inr ⟨rfl, rfl, fun _ _ => rfl,
      Network.transit_le (hflight ▸ Multiset.le_cons_self _ _), ?_⟩
    intro _ d' hd' m' h
    rw [Network.mem_transit] at h ⊢
    refine h.imp_left fun h => ?_
    rcases List.mem_cons.mp (hf.mem_iff.mp h) with he | h
    · cases he
      exact absurd hd' hd
    · exact h
  | @lost i rest hf =>
    exact .inr ⟨rfl, rfl, fun _ _ => rfl, Network.transit_le (Multiset.coe_le.mpr hf.subperm),
      fun h => absurd rfl (h _)⟩

namespace Moved

variable {p q : N} {m : Node N I P} {input : Option (ProtocolMessage N I P)}
  {acts : List (Action N I P)} {used : Multiset (N × ProtocolMessage N I P)} {d : N}
  {msg : ProtocolMessage N I P}

lemma same (h : Moved ids w w' mv p m input acts used) : (w'.node p).id = m.id ∧
    (w'.node p).messages = m.messages ∧ (w'.node p).missings = m.missings ∧
    (w'.node p).neighbours = m.neighbours := by
  obtain ⟨rest, hself, _⟩ := h.self
  rw [hself]
  exact ⟨rfl, rfl, rfl, rfl⟩

lemma holds_self (h : Moved ids w w' mv p m input acts used) {i : I} :
    (w'.node p).Holds i ↔ m.Holds i := by
  rw [Node.Holds, h.same.2.1, Node.Holds]

lemma holds (h : Moved ids w w' mv p m input acts used) {i : I} (hi : (w.node q).Holds i) :
    (w'.node q).Holds i := by
  by_cases hq : q = p
  · subst hq
    exact h.holds_self.mpr (h.effect.holds hi)
  · rwa [(h.others q hq).1]

lemma sent_cases (h : Moved ids w w' mv p m input acts used) (hm : (d, msg) ∈ sent ids w') :
    (d, msg) ∈ sent ids w ∨ .send d msg ∈ acts := by
  have hall : (d, msg) ∈ used + sent ids w' := Multiset.mem_add.mpr (.inr hm)
  rw [h.sent_eq, Multiset.mem_add, Multiset.mem_coe, mem_outgoing] at hall
  exact hall

lemma sent_of_act (h : Moved ids w w' mv p m input acts used) (hm : .send d msg ∈ acts) :
    (d, msg) ∈ sent ids w' := by
  have hle : (↑(acts.filterMap Action.outgoing) : Multiset _) ≤ sent ids w' := by
    obtain ⟨kept, hkept⟩ := Multiset.le_iff_exists_add.mp h.used_le
    have hnew : sent ids w' = kept + ↑(acts.filterMap Action.outgoing) := by
      have hsum := h.sent_eq
      rw [hkept, add_assoc] at hsum
      exact add_left_cancel hsum
    rw [hnew]
    exact Multiset.le_add_left _ _
  exact Multiset.mem_of_le hle (Multiset.mem_coe.mpr (mem_outgoing.mpr hm))

lemma sent_of_sent (h : Moved ids w w' mv p m input acts used) (hm : (d, msg) ∈ sent ids w) :
    (d, msg) ∈ sent ids w' ∨ d = p ∧ (input = some msg ∨ msg.sender ∉ (w.node p).neighbours) := by
  have hall : (d, msg) ∈ used + sent ids w' := by
    rw [h.sent_eq]
    exact Multiset.mem_add.mpr (.inl hm)
  rcases Multiset.mem_add.mp hall with hu | hs
  · exact .inr (h.used_eq _ hu)
  · exact .inl hs

end Moved

end Cluster

end QuicP2p.Plumtree
