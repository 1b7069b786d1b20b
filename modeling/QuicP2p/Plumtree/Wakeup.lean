import QuicP2p.Plumtree.Sends
import QuicP2p.Plumtree.Table

/-! The time at which a node asks to be woken, and the announcements that wait for it. -/

namespace QuicP2p.Plumtree

open Library

variable {N I P : Type} [DecidableEq N] [DecidableEq I]

namespace Node

/-- The operations on its table that an operation of a node makes. A message that arrives cancels
the announcements of it. -/
def Drives (n : Node N I P) : Input N I P → List (TableOp N I) → Prop
  | .receive (.ihave h), ops => ops =
      if n.isKnownNode h.sender ∧ n.messages.containsKey h.messageId = false then
        [.push { h with realtime := n.eagerPushPeers.isEmpty || h.realtime } n.clock
          n.options.ihaveTimeout]
      else []
  | .receive (.gossip g), ops => ops =
      if n.isKnownNode g.sender ∧ n.messages.containsKey g.message.id = false then
        [.remove g.message.id]
      else []
  | .pollAction, ops => ∀ op ∈ ops, op = .popExpired n.clock
  | .call (.handleNeighborDown _), ops => ∀ op ∈ ops, op = .popExpired .max
  | _, ops => ops = []

/-- The operations on its table that a run of a node makes. -/
inductive Follows : List (Taken (Node N I P) (Input N I P)) → List (TableOp N I) → Prop
  | nil : Follows [] []
  | snoc {tr : List (Taken (Node N I P) (Input N I P))} {ops ops' : List (TableOp N I)}
      {e : Taken (Node N I P) (Input N I P)} (h : Follows tr ops)
      (he : e.before.Drives e.input ops') : Follows (tr ++ [e]) (ops ++ ops')

variable {n m : Node N I P} {i : Input N I P}

/-- The table changes by operations of which `C` holds. -/
def Reached (C : List (TableOp N I) → Prop) (n m : Node N I P) : Prop :=
  ∃ ops, Run MissingMessages.operate n.missings ops m.missings ∧ C (ops.map Taken.input)

lemma Reached.same {C : List (TableOp N I) → Prop} (hm : m.missings = n.missings) (hc : C []) :
    Reached C n m :=
  ⟨[], hm ▸ .start, hc⟩

lemma Reached.one {C : List (TableOp N I) → Prop} (op : TableOp N I)
    (hm : n.missings.operate op = .ok m.missings) (hc : C [op]) : Reached C n m :=
  ⟨_, .next .start hm, hc⟩

lemma Reached.pop {clock : Clock} {r : Option (IhaveMessage N I)} {k : Node N I P}
    (hp : n.popExpired clock = .ok (r, k))
    (h : Reached (fun ops => ∀ op ∈ ops, op = .popExpired clock) k m) :
    Reached (fun ops => ∀ op ∈ ops, op = .popExpired clock) n m := by
  obtain ⟨ops, hrun, hops⟩ := h
  obtain ⟨⟨r', missings⟩, hpop, hk⟩ := bind_eq_ok.mp hp
  cases hk
  have hstep : n.missings.operate (.popExpired clock) = .ok missings := by
    rw [MissingMessages.operate, hpop]
    rfl
  refine ⟨_, hrun.cons hstep, ?_⟩
  rw [List.map_cons]
  exact List.forall_mem_cons.mpr ⟨rfl, hops⟩

lemma Reached.of_sendGraft {C : List (TableOp N I) → Prop} {ihave : IhaveMessage N I}
    (h : Reached C (n.sendGraft ihave).2 m) : Reached C n m := by
  obtain ⟨ops, hrun, hops⟩ := h
  rw [missings_sendGraft] at hrun
  exact ⟨ops, hrun, hops⟩

lemma handleExpirationLoop_reached {passes : ℕ} (h : handleExpirationLoop passes n = .ok m) :
    Reached (fun ops => ∀ op ∈ ops, op = .popExpired n.clock) n m := by
  induction passes generalizing n with
  | zero => cases h
  | succ passes ih =>
    obtain ⟨⟨r, k⟩, hk, h⟩ := bind_eq_ok.mp h
    have hclock : k.clock = n.clock := by
      obtain ⟨_, _, hk'⟩ := bind_eq_ok.mp hk
      cases hk'
      rfl
    apply Reached.pop hk
    cases r with
    | none =>
      cases h
      exact .same rfl (by simp)
    | some ihave =>
      have hrest := ih h
      rw [clock_sendGraft, hclock] at hrest
      exact hrest.of_sendGraft

lemma graftLoop_reached {passes : ℕ} (h : graftLoop passes n = .ok m) :
    Reached (fun ops => ∀ op ∈ ops, op = .popExpired .max) n m := by
  induction passes generalizing n with
  | zero => cases h
  | succ passes ih =>
    obtain ⟨⟨r, k⟩, hk, h⟩ := bind_eq_ok.mp h
    apply Reached.pop hk
    cases r with
    | none =>
      cases h
      exact .same rfl (by simp)
    | some ihave =>
      dsimp only at h
      split at h
      · cases h
        exact .same (missings_sendGraft ihave) (by simp)
      · exact (ih h).of_sendGraft

lemma perform_reached (c : Call N I P) (h : n.perform c = .ok m) :
    Reached (n.Drives (.call c)) n m := by
  cases c with
  | broadcastMessage msg =>
    cases h
    exact .same (by rw [broadcastMessage_eq]) rfl
  | forgetMessage j =>
    cases h
    exact .same rfl rfl
  | handleNeighborUp x =>
    cases h
    by_cases hk : x ∈ n.neighbours ∨ n.id = x
    · rw [handleNeighborUp, if_pos (by rwa [isKnownNode_iff])]
      exact .same rfl rfl
    · rw [not_or] at hk
      exact .same (by rw [handleNeighborUp_of_new hk.1 hk.2]) rfl
  | handleNeighborDown x =>
    change n.handleNeighborDown x = .ok m at h
    unfold handleNeighborDown at h
    split at h
    · dsimp only at h
      split at h
      · exact graftLoop_reached (n := n.dropPeer x) h
      · cases h
        exact .same rfl (by simp [Drives])
    · cases h
      exact .same rfl (by simp [Drives])
  | tick d =>
    cases h
    exact .same rfl rfl
  | reorder a b =>
    cases h
    exact .same rfl rfl
  | optionsMut o =>
    cases h
    exact .same rfl rfl

lemma receive_reached (n : Node N I P) (msg : ProtocolMessage N I P) :
    Reached (n.Drives (.receive msg)) n (n.handleProtocolMessage msg).2 := by
  by_cases hs : n.isKnownNode msg.sender = true
  · rw [handleProtocolMessage.eq_def, if_pos hs]
    cases msg with
    | gossip g =>
      have hg : n.isKnownNode g.sender = true := hs
      dsimp only
      cases hc : n.messages.containsKey g.message.id with
      | true =>
        rw [handleGossip_of_holds (HashMap.containsKey_iff.mp hc)]
        exact .same rfl (by simp [Drives, hc])
      | false =>
        have hfresh : ¬ n.Holds g.message.id := fun h => by
          simp [HashMap.containsKey_iff.mpr h] at hc
        rw [handleGossip_of_fresh hfresh]
        exact .one (.remove g.message.id) rfl (by simp [Drives, hc, hg, -isKnownNode_iff])
    | ihave h =>
      have hh : n.isKnownNode h.sender = true := hs
      dsimp only [handleIhave]
      cases hc : n.messages.containsKey h.messageId with
      | true => exact .same rfl (by simp [Drives, hc])
      | false =>
        apply Reached.one (.push { h with realtime := n.eagerPushPeers.isEmpty || h.realtime }
          n.clock n.options.ihaveTimeout)
        · cases n.eagerPushPeers.isEmpty <;> rfl
        · simp [Drives, hc, hh, -isKnownNode_iff]
    | graft g =>
      dsimp only [handleGraft]
      split
      · split
        · exact .same rfl rfl
        · exact .same rfl rfl
      · exact .same rfl rfl
    | prune p => exact .same rfl rfl
  · rw [handleProtocolMessage.eq_def, if_neg hs]
    cases msg with
    | gossip g =>
      have hg : ¬ n.isKnownNode g.sender = true := hs
      exact .same rfl (by simp [Drives, hg, -isKnownNode_iff])
    | ihave h =>
      have hh : ¬ n.isKnownNode h.sender = true := hs
      exact .same rfl (by simp [Drives, hh, -isKnownNode_iff])
    | graft g => exact .same rfl rfl
    | prune p => exact .same rfl rfl

lemma step_reached (hs : n.step i = .ok m) : Reached (n.Drives i) n m := by
  obtain ⟨r, hr, hs⟩ := bind_eq_ok.mp hs
  cases hs
  cases i with
  | call c =>
    obtain ⟨k, hk, hr⟩ := bind_eq_ok.mp hr
    cases hr
    exact perform_reached c hk
  | receive msg =>
    cases hr
    exact receive_reached n msg
  | pollAction =>
    obtain ⟨k, hk, hr⟩ := bind_eq_ok.mp hr
    cases hr
    have hreached := handleExpirationLoop_reached hk
    exact hreached

variable {id : N} {options : NodeOptions} {choices : List ℕ}
  {tr : List (Taken (Node N I P) (Input N I P))}

lemma table_run (h : Run step (withOptions id options choices) tr n) :
    ∃ ops, Run MissingMessages.operate (.new choices) ops n.missings ∧
      Follows tr (ops.map Taken.input) := by
  apply h.history (P := fun tr n =>
    ∃ ops, Run MissingMessages.operate (.new choices) ops n.missings ∧
      Follows tr (ops.map Taken.input))
  · rintro tr n i m ⟨ops, hrun, hops⟩ hs
    obtain ⟨ops', hrun', hops'⟩ := step_reached hs
    refine ⟨ops ++ ops', hrun.append hrun', ?_⟩
    rw [List.map_append]
    exact .snoc hops hops'
  · exact ⟨[], .start, .nil⟩

/-- The node asks to be woken for the earliest of the announcements that wait, if there is one. -/
def WakesFor (n : Node N I P) (s : Multiset (NodeTime × IhaveMessage N I)) : Prop :=
  (n.nextExpiryTime = none ↔ s = 0) ∧
    ∀ t, n.nextExpiryTime = some t → (∃ a ∈ s, a.1 = t) ∧ ∀ a ∈ s, t ≤ a.1

/-- The queue is empty, or one of its earliest items is an announcement whose entry is there. -/
def Led (n : Node N I P) : Prop :=
  n.missings.timeoutQueue.items = [] ∨ ∃ x ∈ n.missings.timeoutQueue.items,
    (∀ y ∈ n.missings.timeoutQueue.items, x.expiryTime ≤ y.expiryTime) ∧ x.isMessage = true ∧
      ∃ e, n.missings.ihaves.get x.messageId = some e ∧ e.seqno = x.entrySeqno

omit [DecidableEq N] in
lemma wakesFor_waiting_iff : n.WakesFor n.missings.waiting ↔ n.Led := by
  cases hpeek : n.missings.timeoutQueue.peek QueueItem.expiryTime with
  | none =>
    have hnil := BinaryHeap.peek_eq_none.mp hpeek
    have hw : n.missings.waiting = 0 := by
      simp [MissingMessages.waiting, BinaryHeap.contents, hnil]
    apply iff_of_true _ (.inl hnil)
    simp [WakesFor, nextExpiryTime, MissingMessages.nextExpiryTime, hpeek, hw]
  | some x =>
    have hnext : n.nextExpiryTime = some x.expiryTime := by
      rw [nextExpiryTime, MissingMessages.nextExpiryTime, hpeek]
      rfl
    obtain ⟨hx, hmin⟩ := BinaryHeap.peek_mem hpeek
    constructor
    · rintro ⟨_, hsome⟩
      obtain ⟨⟨⟨t, ihave⟩, ha, ht⟩, _⟩ := hsome _ hnext
      obtain ⟨e, he, hi⟩ := MissingMessages.mem_waiting.mp ha
      right
      refine ⟨_, hi, fun y hy => ?_, rfl, e, he, rfl⟩
      exact (ht.le).trans (hmin y hy)
    · rintro (hnil | ⟨y, hy, hfirst, hmessage, e, he, hs⟩)
      · rw [BinaryHeap.contents, hnil] at hx
        exact absurd hx (Multiset.notMem_zero x)
      · cases y with
        | entry t s j => cases hmessage
        | message t s ihave =>
          obtain rfl : e.seqno = s := hs
          have hw : (t, ihave) ∈ n.missings.waiting := MissingMessages.mem_waiting.mpr ⟨e, he, hy⟩
          have ht : t = x.expiryTime := le_antisymm (hfirst x hx) (hmin _ hy)
          have hne : n.missings.waiting ≠ 0 := fun h0 => Multiset.notMem_zero _ (h0 ▸ hw)
          refine ⟨iff_of_false (by simp [hnext]) hne, fun u hu => ?_⟩
          rw [hnext] at hu
          cases hu
          exact ⟨⟨_, hw, ht⟩, MissingMessages.le_of_waiting hpeek⟩

/-- In every reachable state, the node asks to be woken for the earliest of the announcements that
the operations of the run left waiting, exactly if no leftover of its queue is earlier than all of
these. -/
theorem wakesFor_iff (h : Run step (withOptions id options choices) tr n) :
    (∃ ops, Run MissingMessages.operate (.new choices) ops n.missings ∧
      Follows tr (ops.map Taken.input)) ∧
    ∀ ops s, Run MissingMessages.operate (.new choices) ops n.missings →
      Follows tr (ops.map Taken.input) →
      Agenda.After IhaveMessage.messageId (MissingMessages.events ops) s →
      (n.WakesFor s ↔ n.Led) := by
  refine ⟨table_run h, fun ops s hops _ hs => ?_⟩
  have ha := (MissingMessages.run_spec hops).2
  rw [hs.unique ha]
  exact wakesFor_waiting_iff

/-- Peer 1 announces two messages, and sends the second one. -/
def overtaken : List (Input ℕ ℕ ℕ) :=
  [.call (.handleNeighborUp 1), .receive (.ihave ⟨1, 7, 0, false⟩), .call (.tick 100),
    .receive (.ihave ⟨1, 8, 0, false⟩), .receive (.gossip ⟨1, ⟨8, 80⟩, 0⟩)]

theorem wakesFor_iff_overtaken : ∃ (n : Node ℕ ℕ ℕ) (tr : List (Taken (Node ℕ ℕ ℕ) (Input ℕ ℕ ℕ)))
    (ops : List (Taken (MissingMessages ℕ ℕ) (TableOp ℕ ℕ))), Run step (.new 0 []) tr n ∧
      Run MissingMessages.operate (.new []) ops n.missings ∧ Follows tr (ops.map Taken.input) ∧
      n.WakesFor {(((500000000 : ℕ) : NodeTime), ⟨1, 7, 0, false⟩)} ∧
      n.nextExpiryTime = some ((500000000 : ℕ) : NodeTime) := by
  have hrun : follow step (.new 0 []) overtaken = .ok _ := rfl
  obtain ⟨⟨ops, hops, hfollows⟩, hiff⟩ := wakesFor_iff (Run.of_follow overtaken hrun)
  have hafter := (MissingMessages.run_spec hops).2
  refine ⟨_, _, ops, Run.of_follow _ hrun, hops, hfollows, ?_, rfl⟩
  apply (hiff ops _ hops hfollows hafter).mpr
  exact .inr ⟨_, List.mem_cons_self, by decide, rfl, _, rfl, rfl⟩

/-- Peer 1 announces a message and sends it. -/
def sentOn : List (Input ℕ ℕ ℕ) :=
  [.call (.handleNeighborUp 1), .receive (.ihave ⟨1, 7, 0, false⟩),
    .receive (.gossip ⟨1, ⟨7, 70⟩, 0⟩)]

/-- The announcement of a message that has arrived still counts. -/
theorem wakes_for_arrived : ∃ (n : Node ℕ ℕ ℕ) (tr : List (Taken (Node ℕ ℕ ℕ) (Input ℕ ℕ ℕ)))
    (ops : List (Taken (MissingMessages ℕ ℕ) (TableOp ℕ ℕ))), Run step (.new 0 []) tr n ∧
      Run MissingMessages.operate (.new []) ops n.missings ∧ Follows tr (ops.map Taken.input) ∧
      Agenda.After IhaveMessage.messageId (MissingMessages.events ops) 0 ∧
      n.nextExpiryTime = some ((500000000 : ℕ) : NodeTime) ∧ ¬ n.WakesFor 0 := by
  have hrun : follow step (.new 0 []) sentOn = .ok _ := rfl
  obtain ⟨ops, hops, hfollows⟩ := table_run (Run.of_follow sentOn hrun)
  have hafter := (MissingMessages.run_spec hops).2
  refine ⟨_, _, ops, Run.of_follow _ hrun, hops, hfollows, hafter, rfl, ?_⟩
  rintro ⟨hnone, _⟩
  cases hnone.mpr rfl

end Node

end QuicP2p.Plumtree
