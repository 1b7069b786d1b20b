import QuicP2p.P2p.Session

/-! The buffer between Plumtree and the application: what becomes of the messages put into it, and
the order in which they leave it. -/

namespace QuicP2p.P2p

open Library

/-- A message that came at a time has waited for more than the delay. -/
def Overdue (clock : WallClock) (receiveTime : ℕ) : Prop :=
  receiveTime ≤ clock.now ∧ maxOutOfOrderDelayMs < clock.now - receiveTime

instance (clock : WallClock) (receiveTime : ℕ) : Decidable (Overdue clock receiveTime) :=
  inferInstanceAs (Decidable (_ ∧ _))

/-- What the buffer shows of a session: its entries with the times they came, the timestamps that
left it last, and the messages that left it and that came to it. -/
structure Shelf (α : Type) where
  buffer : BTreeMap (α × ℕ)
  processed : List ℕ
  handedOut : List α
  delivered : List (α × ℕ)

namespace Shelf

variable {α : Type} {x y : Shelf α} {timestamp : α → ℕ} {clock : WallClock}
  {c : Option WallClock} {d : Option α}

def trimmed (processed : List ℕ) : List ℕ :=
  if maxProcessedCacheLen < processed.length then
    processed.drop (min (processed.length - maxProcessedCacheLen) maxCleanupPerCall)
  else processed

/-- The timestamp is not smaller than the last that left. -/
def InSequence (x : Shelf α) (timestamp : ℕ) : Prop :=
  ∃ back ∈ x.processed.getLast?, back ≤ timestamp

/-- A search finds nothing that may leave, or the entry with the least timestamp leaves. -/
inductive Searched (clock : WallClock) (x : Shelf α) : Shelf α → Prop
  | nothing (h : ∀ e ∈ x.buffer.first, ¬ (Overdue clock e.2.2 ∨ x.InSequence e.1)) :
      Searched clock x { x with processed := trimmed x.processed }
  | found {k t : ℕ} {a : α} (h : x.buffer.first = some (k, (a, t)))
      (hripe : Overdue clock t ∨ x.InSequence k) :
      Searched clock x { x with
        buffer := (x.buffer.remove k).2
        processed := trimmed x.processed ++ [k]
        handedOut := x.handedOut ++ [a] }

def put (timestamp : α → ℕ) (x : Shelf α) (a : α) (t : ℕ) : Shelf α :=
  { x with
    buffer := x.buffer.insert (timestamp a) (a, t)
    delivered := x.delivered ++ [(a, t)] }

/-- The steps, each with the clock of its search and the message it puts into the buffer. -/
inductive Step (timestamp : α → ℕ) (x : Shelf α) : Option WallClock → Option α → Shelf α → Prop
  | still : Step timestamp x none none x
  | searched {clock : WallClock} {y : Shelf α} (h : Searched clock x y) :
      Step timestamp x (some clock) none y
  | delivered {clock : WallClock} {y : Shelf α} (a : α) (t : ℕ)
      (h : Searched clock (x.put timestamp a t) y) : Step timestamp x (some clock) (some a) y

/-- The messages in the buffer. -/
def pending (x : Shelf α) : Multiset α := x.buffer.contents.map (fun e => e.2.1)

/-- The message that gives up its place to one of the same timestamp. -/
def displaced (timestamp : α → ℕ) (x : Shelf α) : Option α → Multiset α
  | some a => ((x.buffer.get (timestamp a)).map Prod.fst).elim 0 ({·})
  | none => 0

lemma pending_put (a : α) (t : ℕ) :
    (x.put timestamp a t).pending + x.displaced timestamp (some a) = a ::ₘ x.pending := by
  have h := congrArg (Multiset.map (fun e : ℕ × α × ℕ => e.2.1))
    (x.buffer.contents_insert (timestamp a) (a, t))
  rw [Multiset.map_add, Multiset.map_cons] at h
  have hold : Multiset.map (fun e : ℕ × α × ℕ => e.2.1)
      (((x.buffer.get (timestamp a)).map (timestamp a, ·)).elim 0 ({·})) =
      x.displaced timestamp (some a) := by
    simp only [displaced]
    cases x.buffer.get (timestamp a) with
    | none => rfl
    | some b => simp
  rw [hold] at h
  exact h

lemma Searched.conserved (h : Searched clock x y) :
    ↑y.handedOut + y.pending = ↑x.handedOut + x.pending ∧ y.delivered = x.delivered := by
  cases h with
  | nothing _ => exact ⟨rfl, rfl⟩
  | @found k t a hf _ =>
    have hrem := BTreeMap.contents_remove (BTreeMap.get_eq_some.mpr (BTreeMap.first_mem hf))
    refine ⟨?_, rfl⟩
    simp only [pending, ← hrem, Multiset.map_cons, ← Multiset.coe_add, add_assoc]
    rfl

lemma Step.conserved (h : Step timestamp x c d y) :
    ↑y.handedOut + y.pending + x.displaced timestamp d + ↑(x.delivered.map Prod.fst) =
      ↑x.handedOut + x.pending + ↑(y.delivered.map Prod.fst) := by
  cases h with
  | still => simp [displaced]
  | searched h =>
    obtain ⟨hs, hd⟩ := h.conserved
    simp [hs, hd, displaced]
  | delivered a t h =>
    obtain ⟨hs, hd⟩ := h.conserved
    have hput : (x.put timestamp a t).pending + x.displaced timestamp (some a) = a ::ₘ x.pending :=
      x.pending_put a t
    rw [hs, hd]
    calc ↑(x.put timestamp a t).handedOut + (x.put timestamp a t).pending +
          x.displaced timestamp (some a) + ↑(x.delivered.map Prod.fst)
        = ↑x.handedOut + ((x.put timestamp a t).pending + x.displaced timestamp (some a)) +
            ↑(x.delivered.map Prod.fst) := by
          rw [← add_assoc]
          rfl
      _ = ↑x.handedOut + x.pending + ↑((x.put timestamp a t).delivered.map Prod.fst) := by
          rw [hput, put, List.map_append, ← Multiset.coe_add, ← Multiset.singleton_add]
          simp only [List.map_cons, List.map_nil, Multiset.coe_singleton]
          abel

lemma getLast?_trimmed (processed : List ℕ) :
    (trimmed processed).getLast? = processed.getLast? := by
  unfold trimmed
  split
  next h =>
    rw [List.getLast?_drop, if_neg]
    simp only [maxProcessedCacheLen, maxCleanupPerCall] at h ⊢
    omega
  next => rfl

/-- The last timestamp that left the buffer is known, and every entry stands under its own. -/
structure Tracked (timestamp : α → ℕ) (x : Shelf α) : Prop where
  back_eq : x.processed.getLast? = x.handedOut.getLast?.map timestamp
  keyed : ∀ e ∈ x.buffer.entries, e.1 = timestamp e.2.1

namespace Tracked

lemma searched (h : x.Tracked timestamp) (hs : Searched clock x y) : y.Tracked timestamp := by
  cases hs with
  | nothing _ => exact ⟨(getLast?_trimmed _).trans h.back_eq, h.keyed⟩
  | @found k t a hf _ =>
    refine ⟨?_, fun e he => h.keyed e (BTreeMap.mem_remove.mp he).1⟩
    have hk : k = timestamp a := h.keyed _ (BTreeMap.first_mem hf)
    simp [hk]

lemma put (h : x.Tracked timestamp) (a : α) (t : ℕ) : (x.put timestamp a t).Tracked timestamp := by
  refine ⟨h.back_eq, ?_⟩
  intro e he
  rcases BTreeMap.mem_insert he with rfl | he
  · rfl
  · exact h.keyed e he

lemma step (h : x.Tracked timestamp) (hs : x.Step timestamp c d y) : y.Tracked timestamp := by
  cases hs with
  | still => exact h
  | searched hs => exact h.searched hs
  | delivered a t hs => exact (h.put a t).searched hs

end Tracked

/-- What keeps the order: the last timestamp that left is known, and no entry lies before it. -/
structure InOrder (timestamp : α → ℕ) (x : Shelf α) : Prop where
  back_eq : x.processed.getLast? = x.handedOut.getLast?.map timestamp
  keyed : ∀ e ∈ x.buffer.entries, e.1 = timestamp e.2.1
  sorted : (x.handedOut.map timestamp).Pairwise (· ≤ ·)
  ahead : ∀ e ∈ x.buffer.entries, ∀ a ∈ x.handedOut, timestamp a ≤ e.1

lemma InOrder.tracked (h : InOrder timestamp x) : Tracked timestamp x := ⟨h.back_eq, h.keyed⟩

lemma InOrder.handed_le (h : InOrder timestamp x) {a : α} (ha : a ∈ x.handedOut) {k : ℕ}
    (hk : ∀ back ∈ x.processed.getLast?, back ≤ k) : timestamp a ≤ k := by
  obtain ⟨back, hback⟩ := Option.isSome_iff_exists.mp
    (List.getLast?_isSome.mpr (List.ne_nil_of_mem ha))
  refine le_trans ?_ (hk (timestamp back) (by rw [h.back_eq, hback]; rfl))
  obtain ⟨init, hinit⟩ := List.getLast?_eq_some_iff.mp hback
  have hsorted := h.sorted
  rw [hinit, List.map_append, List.pairwise_append] at hsorted
  rw [hinit] at ha
  rcases List.mem_append.mp ha with ha | ha
  · exact hsorted.2.2 _ (List.mem_map_of_mem ha) _ (by simp)
  · rw [List.mem_singleton.mp ha]

/-- A search keeps the order, and mends none. -/
lemma Searched.inOrder_iff (hs : Searched clock x y) (ht : x.Tracked timestamp) :
    y.InOrder timestamp ↔ x.InOrder timestamp := by
  have ht' := ht.searched hs
  cases hs with
  | nothing _ =>
    exact ⟨fun h => ⟨ht.back_eq, ht.keyed, h.sorted, h.ahead⟩,
      fun h => ⟨ht'.back_eq, ht'.keyed, h.sorted, h.ahead⟩⟩
  | @found k t a hf _ =>
    have hmem := BTreeMap.first_mem hf
    have hk : k = timestamp a := ht.keyed _ hmem
    constructor
    · intro h
      have hsorted := h.sorted
      rw [List.map_append, List.pairwise_append] at hsorted
      refine ⟨ht.back_eq, ht.keyed, hsorted.1, ?_⟩
      intro e he b hb
      by_cases hek : e.1 = k
      · rw [hek, hk]
        exact hsorted.2.2 _ (List.mem_map_of_mem hb) _ (by simp)
      · exact h.ahead e (BTreeMap.mem_remove.mpr ⟨he, hek⟩) b (List.mem_append_left _ hb)
    · intro h
      refine ⟨ht'.back_eq, ht'.keyed, ?_, ?_⟩
      · rw [List.map_append, List.pairwise_append]
        refine ⟨h.sorted, List.pairwise_singleton _ _, ?_⟩
        intro b hb c hc
        obtain ⟨a', ha', rfl⟩ := List.mem_map.mp hb
        rw [List.map_singleton, List.mem_singleton] at hc
        rw [hc, ← hk]
        exact h.ahead _ hmem a' ha'
      · intro e he b hb
        have he := (BTreeMap.mem_remove.mp he).1
        rcases List.mem_append.mp hb with hb | hb
        · exact h.ahead e he b hb
        · rw [List.mem_singleton.mp hb, ← hk]
          exact BTreeMap.first_le hf he

lemma put_inOrder_iff (ht : x.Tracked timestamp) (a : α) (t : ℕ) :
    (x.put timestamp a t).InOrder timestamp ↔
      x.InOrder timestamp ∧ ∀ b ∈ x.handedOut, timestamp b ≤ timestamp a := by
  have hkeys : ∀ j, (∃ e ∈ (x.put timestamp a t).buffer.entries, e.1 = j) ↔
      j = timestamp a ∨ ∃ e ∈ x.buffer.entries, e.1 = j := fun _ => BTreeMap.exists_mem_insert
  have ht' := ht.put a t
  constructor
  · intro h
    have hahead : ∀ j, (j = timestamp a ∨ ∃ e ∈ x.buffer.entries, e.1 = j) →
        ∀ b ∈ x.handedOut, timestamp b ≤ j := by
      intro j hj b hb
      obtain ⟨e, he, rfl⟩ := (hkeys j).mpr hj
      exact h.ahead e he b hb
    exact ⟨⟨ht.back_eq, ht.keyed, h.sorted, fun e he => hahead _ (.inr ⟨e, he, rfl⟩)⟩,
      hahead _ (.inl rfl)⟩
  · rintro ⟨h, ha⟩
    refine ⟨ht'.back_eq, ht'.keyed, h.sorted, fun e he b hb => ?_⟩
    rcases BTreeMap.mem_insert he with rfl | he
    · exact ha b hb
    · exact h.ahead e he b hb

lemma Step.inOrder_iff (hs : Step timestamp x c d y) (ht : x.Tracked timestamp) :
    y.InOrder timestamp ↔
      x.InOrder timestamp ∧ ∀ a ∈ d, ∀ b ∈ x.handedOut, timestamp b ≤ timestamp a := by
  cases hs with
  | still => simp
  | searched hs => simp [hs.inOrder_iff ht]
  | delivered a t hs => simp [hs.inOrder_iff (ht.put a t), put_inOrder_iff ht]

/-- The order stands as long as no message comes with a timestamp before the last that left. -/
lemma InOrder.step (h : InOrder timestamp x) (hs : Step timestamp x c d y)
    (hd : ∀ a ∈ d, ∀ back ∈ x.processed.getLast?, back ≤ timestamp a) : InOrder timestamp y :=
  (hs.inOrder_iff h.tracked).mpr ⟨h, fun a ha _ hb => h.handed_le hb (hd a ha)⟩

/-- Once a message has left in order, a search that finds nothing has come to an empty buffer. -/
def Spent (timestamp : α → ℕ) (x : Shelf α) : Prop :=
  x.InOrder timestamp → x.handedOut ≠ [] → x.buffer.entries = []

lemma Searched.spent (hs : Searched clock x y) (hsame : y.handedOut = x.handedOut) :
    y.Spent timestamp := by
  cases hs with
  | found => simp at hsame
  | nothing hwait =>
    intro h hne
    have hnone : x.buffer.first = none := by
      rw [Option.eq_none_iff_forall_not_mem]
      intro e he
      refine hwait e he (.inr ?_)
      obtain ⟨back, hback⟩ := Option.isSome_iff_exists.mp (List.getLast?_isSome.mpr hne)
      have hlast : x.processed.getLast? = some (timestamp back) := by
        rw [← getLast?_trimmed, h.back_eq, hback]
        rfl
      exact ⟨timestamp back, hlast,
        h.ahead e (BTreeMap.first_mem he) back (List.mem_of_getLast? hback)⟩
    exact List.head?_eq_none_iff.mp hnone

/-- The message of the least timestamp that has been put in, the last of those that share it. -/
def foremost (timestamp : α → ℕ) (log : List (α × ℕ)) : Option (α × ℕ) :=
  log.foldl (fun f e => if f.all (fun f => timestamp e.1 ≤ timestamp f.1) then some e else f) none

lemma foremost_concat (log : List (α × ℕ)) (e : α × ℕ) :
    foremost timestamp (log ++ [e]) =
      if (foremost timestamp log).all (fun f => timestamp e.1 ≤ timestamp f.1) then some e
      else foremost timestamp log := by
  rw [foremost, List.foldl_append]
  rfl

/-- Of each timestamp that has been put in, a message has left or waits; and as long as none has
left, the buffer begins with the foremost. -/
structure Logged (timestamp : α → ℕ) (x : Shelf α) : Prop extends Tracked timestamp x where
  put_iff : ∀ k, (∃ e ∈ x.delivered, timestamp e.1 = k) ↔
    (∃ a ∈ x.handedOut, timestamp a = k) ∨ ∃ e ∈ x.buffer.entries, e.1 = k
  first_eq : x.handedOut = [] →
    x.buffer.first = (foremost timestamp x.delivered).map (fun e => (timestamp e.1, e))

namespace Logged

lemma put (h : x.Logged timestamp) (a : α) (t : ℕ) : (x.put timestamp a t).Logged timestamp := by
  refine ⟨h.toTracked.put a t, ?_, ?_⟩
  · intro k
    have hkeys : (∃ e ∈ (x.put timestamp a t).buffer.entries, e.1 = k) ↔
        k = timestamp a ∨ ∃ e ∈ x.buffer.entries, e.1 = k := BTreeMap.exists_mem_insert
    rw [hkeys]
    change (∃ e ∈ x.delivered ++ [(a, t)], timestamp e.1 = k) ↔
      (∃ b ∈ x.handedOut, timestamp b = k) ∨ _
    have hk := h.put_iff k
    simp only [List.mem_append, List.mem_singleton, or_and_right, exists_or, exists_eq_left, hk,
      eq_comm (a := k)]
    exact or_assoc.trans (or_congr_right or_comm)
  · intro hnil
    change (x.buffer.insert (timestamp a) (a, t)).first = _
    rw [BTreeMap.first_insert, h.first_eq hnil]
    change _ = (foremost timestamp (x.delivered ++ [(a, t)])).map _
    rw [foremost_concat]
    cases foremost timestamp x.delivered with
    | none => rfl
    | some f =>
      simp only [Option.map_some, Option.all_some, decide_eq_true_eq]
      split_ifs <;> rfl

lemma searched (h : x.Logged timestamp) (hs : Searched clock x y) : y.Logged timestamp := by
  have ht := h.toTracked.searched hs
  cases hs with
  | nothing _ => exact ⟨ht, h.put_iff, h.first_eq⟩
  | @found k t a hf _ =>
    refine ⟨ht, fun j => (h.put_iff j).trans ?_, fun hnil => by simp at hnil⟩
    have hmem := BTreeMap.first_mem hf
    have hk : k = timestamp a := h.keyed _ hmem
    constructor
    · rintro (⟨b, hb, hj⟩ | ⟨e, he, hj⟩)
      · exact .inl ⟨b, List.mem_append_left _ hb, hj⟩
      · by_cases hek : e.1 = k
        · exact .inl ⟨a, by simp, by rw [← hk, ← hek, hj]⟩
        · exact .inr ⟨e, BTreeMap.mem_remove.mpr ⟨he, hek⟩, hj⟩
    · rintro (⟨b, hb, hj⟩ | ⟨e, he, hj⟩)
      · rcases List.mem_append.mp hb with hb | hb
        · exact .inl ⟨b, hb, hj⟩
        · rw [List.mem_singleton.mp hb, ← hk] at hj
          exact .inr ⟨_, hmem, hj⟩
      · exact .inr ⟨e, (BTreeMap.mem_remove.mp he).1, hj⟩

lemma step (h : x.Logged timestamp) (hs : x.Step timestamp c d y) : y.Logged timestamp := by
  cases hs with
  | still => exact h
  | searched hs => exact h.searched hs
  | delivered a t hs => exact (h.put a t).searched hs

/-- The first message leaves when a search finds that the foremost has waited for too long. -/
lemma searched_opened (h : x.Logged timestamp) (hs : Searched clock x y) :
    y.handedOut ≠ [] ↔
      x.handedOut ≠ [] ∨ ∃ f ∈ foremost timestamp y.delivered, Overdue clock f.2 := by
  by_cases hnil : x.handedOut = []
  · have hfirst := h.first_eq hnil
    have hseq : ∀ k, ¬ x.InSequence k := by
      rintro k ⟨back, hback, _⟩
      rw [h.back_eq, hnil] at hback
      cases hback
    cases hs with
    | nothing hwait =>
      refine iff_of_false (not_not_intro hnil) ?_
      rintro (hne | ⟨f, hf, hover⟩)
      · exact hne hnil
      · have hmem : (timestamp f.1, f) ∈ x.buffer.first := by
          rw [hfirst, Option.mem_def.mp hf]
          rfl
        exact hwait _ hmem (.inl hover)
    | @found k t a hf hripe =>
      refine iff_of_true (by simp) (.inr ?_)
      obtain ⟨f, hf', he⟩ := Option.map_eq_some_iff.mp (hfirst.symm.trans hf)
      cases he
      exact ⟨_, hf', hripe.resolve_right (hseq _)⟩
  · refine iff_of_true ?_ (.inl hnil)
    cases hs with
    | nothing _ => exact hnil
    | found => simp

lemma opened (h : x.Logged timestamp) (hs : x.Step timestamp c d y) :
    y.handedOut ≠ [] ↔
      x.handedOut ≠ [] ∨ ∃ clock ∈ c, ∃ f ∈ foremost timestamp y.delivered, Overdue clock f.2 := by
  cases hs with
  | still => simp
  | searched hs => simpa using h.searched_opened hs
  | delivered a t hs =>
    rw [(h.put a t).searched_opened hs]
    simp [Shelf.put]

end Logged

end Shelf

/-- What the buffer shows of a node with the logs of its session. -/
def P2PNode.shelf {K A M R : Type} (n : P2PNode K A M R)
    (handedOut : List (PlumtreeAppMessage K A M))
    (delivered : List (PlumtreeAppMessage K A M × ℕ)) : Shelf (PlumtreeAppMessage K A M) :=
  ⟨n.messageBuffer, n.processedMessages, handedOut, delivered⟩

/-- The timestamp by which messages are ordered. -/
def stamp {K A M : Type} (m : PlumtreeAppMessage K A M) : ℕ := m.id.timestamp

/-- No message with a later timestamp has been taken from the buffer last. -/
def P2PNode.InSequence {K A M R : Type} (n : P2PNode K A M R) (timestamp : ℕ) : Prop :=
  ∃ back ∈ n.processedMessages.getLast?, back ≤ timestamp

instance {K A M R : Type} (n : P2PNode K A M R) (timestamp : ℕ) :
    Decidable (n.InSequence timestamp) :=
  match h : n.processedMessages.getLast? with
  | none => isFalse (by rintro ⟨_, hb, _⟩; simp [h] at hb)
  | some back => decidable_of_iff (back ≤ timestamp) (by simp [P2PNode.InSequence, h])

namespace Session

variable {K A M R : Type} {s t : Session K A M R} {n : P2PNode K A M R}

def shelf (s : Session K A M R) : Shelf (PlumtreeAppMessage K A M) :=
  s.node.shelf s.handedOut s.delivered

lemma takeBuffered_of_first {k time : ℕ} {m : PlumtreeAppMessage K A M}
    (h : n.messageBuffer.first = some (k, (m, time))) :
    n.takeBuffered k = (some m, { n with
      messageBuffer := (n.messageBuffer.remove k).2
      processedMessages := n.processedMessages ++ [k] }) := by
  have hget := BTreeMap.get_eq_some.mpr (BTreeMap.first_mem h)
  simp only [P2PNode.takeBuffered, BTreeMap.remove, hget]

lemma trimProcessedMessages_eq (n : P2PNode K A M R) : n.trimProcessedMessages =
    { n with processedMessages := Shelf.trimmed n.processedMessages } := by
  simp only [P2PNode.trimProcessedMessages, Shelf.trimmed]
  split <;> rfl

/-- A search of the buffer changes the buffer and the list of processed timestamps only. -/
structure Search (clock : WallClock) (n : P2PNode K A M R)
    (r : Option (PlumtreeAppMessage K A M) × P2PNode K A M R) : Prop where
  same : ∃ b p, r.2 = { n with messageBuffer := b, processedMessages := p }
  shelf : ∀ out del,
    Shelf.Searched clock (n.shelf out del) (r.2.shelf (out ++ r.1.toList) del)

lemma search_nothing {clock : WallClock}
    (h : ∀ e ∈ n.messageBuffer.first, ¬ (Overdue clock e.2.2 ∨ n.InSequence e.1)) :
    Search clock n (none, n.trimProcessedMessages) := by
  rw [trimProcessedMessages_eq]
  refine ⟨⟨_, _, rfl⟩, fun out del => ?_⟩
  rw [Option.toList_none, List.append_nil]
  exact .nothing h

lemma search_found {clock : WallClock} {k time : ℕ} {m : PlumtreeAppMessage K A M}
    (h : n.messageBuffer.first = some (k, (m, time)))
    (hripe : Overdue clock time ∨ n.InSequence k) :
    Search clock n (n.trimProcessedMessages.takeBuffered k) := by
  rw [trimProcessedMessages_eq, takeBuffered_of_first (n := { n with
    processedMessages := Shelf.trimmed n.processedMessages }) h]
  exact ⟨⟨_, _, rfl⟩, fun out del => .found h hripe⟩

/-- A search takes the entry with the least timestamp, if it is overdue or in sequence. -/
lemma processSequentialMessages_eq (n : P2PNode K A M R) (clock : WallClock) :
    n.processSequentialMessages clock = .ok (match n.messageBuffer.first with
      | some (k, (_, t)) =>
        if Overdue clock t ∨ n.InSequence k then n.trimProcessedMessages.takeBuffered k
        else (none, n.trimProcessedMessages)
      | none => (none, n.trimProcessedMessages)) := by
  have hbuffer : n.trimProcessedMessages.messageBuffer = n.messageBuffer := by
    rw [trimProcessedMessages_eq]
  have hback : n.trimProcessedMessages.processedMessages.getLast? =
      n.processedMessages.getLast? := by
    rw [trimProcessedMessages_eq]
    exact Shelf.getLast?_trimmed _
  cases hf : n.messageBuffer.first with
  | none =>
    have hclean : n.cleanupExpiredMessages clock = (none, n.trimProcessedMessages) := by
      simp only [P2PNode.cleanupExpiredMessages, hbuffer, hf]
    simp only [P2PNode.processSequentialMessages, hclean, hbuffer, hf]
  | some e =>
    obtain ⟨k, m, t⟩ := e
    by_cases hover : Overdue clock t
    · have htake := takeBuffered_of_first (n := n.trimProcessedMessages) (hbuffer ▸ hf)
      have hclean : n.cleanupExpiredMessages clock = n.trimProcessedMessages.takeBuffered k := by
        simp only [P2PNode.cleanupExpiredMessages, hbuffer, hf]
        exact if_pos hover
      rw [htake] at hclean
      simp only [P2PNode.processSequentialMessages, hclean, hover, true_or, if_true, htake]
    · have hclean : n.cleanupExpiredMessages clock = (none, n.trimProcessedMessages) := by
        simp only [P2PNode.cleanupExpiredMessages, hbuffer, hf]
        exact if_neg hover
      simp only [P2PNode.processSequentialMessages, hclean, hbuffer, hf, hover, false_or]
      cases hlast : n.processedMessages.getLast? with
      | none =>
        have hnil : n.trimProcessedMessages.processedMessages.isEmpty = true := by
          rw [hlast, List.getLast?_eq_none_iff] at hback
          rw [hback]
          rfl
        have hseq : ¬ n.InSequence k := by
          rintro ⟨back, hb, _⟩
          rw [hlast] at hb
          cases hb
        rw [if_pos hnil, if_neg hseq]
      | some back =>
        have hne : n.trimProcessedMessages.processedMessages.isEmpty = false := by
          rw [hlast] at hback
          rw [List.isEmpty_eq_false_iff]
          rintro he
          rw [he] at hback
          cases hback
        have hseq : n.InSequence k ↔ back ≤ k := by simp [P2PNode.InSequence, hlast]
        rw [hback, hlast]
        simp only [hne, Bool.false_eq_true, if_false, hseq, orPanic_some, ok_bind, Option.all_some,
          decide_eq_true_eq]
        rcases Nat.lt_or_ge k back with hlt | hle
        · rw [if_pos hlt, if_neg (Nat.not_le.mpr hlt)]
        · rw [if_neg (Nat.not_lt.mpr hle), if_pos hle, if_pos hle]

lemma processSequentialMessages_spec (n : P2PNode K A M R) (clock : WallClock) :
    Yields (n.processSequentialMessages clock) (Search clock n) := by
  rw [processSequentialMessages_eq]
  apply Yields.ok
  cases hf : n.messageBuffer.first with
  | none => exact search_nothing (by simp [hf])
  | some e =>
    dsimp only
    split_ifs with hripe
    · exact search_found hf hripe
    · exact search_nothing (by simpa [hf] using hripe)

section Steps

variable [DecidableEq K] [DecidableEq A] [Rng R] {i : Input K A M}

/-- The message of the Deliver action that the poll executes next. -/
def delivering (s : Session K A M R) : Option (PlumtreeAppMessage K A M) :=
  match s.stage with
  | .plumtree _ =>
    (s.node.plumtreeNode.pollAction.toOption.bind Prod.fst).bind Plumtree.Action.delivered
  | _ => none

/-- The message that a step puts into the buffer. -/
def buffered (s : Session K A M R) : Input K A M → Option (PlumtreeAppMessage K A M)
  | .advance _ _ => s.delivering
  | _ => none

/-- The clock with which a step searches the buffer. -/
def searching (s : Session K A M R) : Input K A M → Option WallClock
  | .advance _ now =>
    match s.stage with
    | .buffer _ => some now
    | _ => s.delivering.map (fun _ => now)
  | _ => none

/-- The parts of a node that the buffer consists of are as they were. -/
structure Undisturbed (n m : P2PNode K A M R) : Prop where
  messageBuffer : m.messageBuffer = n.messageBuffer
  processedMessages : m.processedMessages = n.processedMessages

lemma handleHyparviewAction_undisturbed {m : P2PNode K A M R} {a : HyparviewAction K A}
    (h : n.handleHyparviewAction a = .ok m) : Undisturbed n m := by
  cases a with
  | send d msg =>
    cases h
    exact ⟨rfl, rfl⟩
  | disconnect x =>
    obtain ⟨hv, _, h⟩ := bind_eq_ok.mp h
    cases h
    exact ⟨rfl, rfl⟩
  | notify e =>
    cases e with
    | neighborUp x =>
      cases h
      exact ⟨rfl, rfl⟩
    | neighborDown x =>
      obtain ⟨pt, _, h⟩ := bind_eq_ok.mp h
      cases h
      exact ⟨rfl, rfl⟩

lemma handleP2pnodeProtocolMessage_undisturbed {m : P2PNode K A M R} {b : Bool}
    {msg : P2pNodeProtocolMessage K A M}
    (h : n.handleP2pnodeProtocolMessage msg = .ok (b, m)) : Undisturbed n m := by
  cases msg with
  | hyparview msg =>
    obtain ⟨hv, _, h⟩ := bind_eq_ok.mp h
    cases h
    exact ⟨rfl, rfl⟩
  | plumtree msg =>
    cases h
    exact ⟨rfl, rfl⟩
  | plumtreeStream msg => cases h

omit [DecidableEq K] [DecidableEq A] [Rng R] in
lemma shelf_found {r : Option (PlumtreeAppMessage K A M) × P2PNode K A M R} {stage : Stage} :
    (s.found stage r).shelf = r.2.shelf (s.handedOut ++ r.1.toList) s.delivered := by
  obtain ⟨_ | m, node⟩ := r
  · rw [Option.toList_none, List.append_nil]
    rfl
  · rfl

omit [DecidableEq K] [DecidableEq A] [Rng R] in
lemma shelf_delivered {r : Option (PlumtreeAppMessage K A M) × P2PNode K A M R} {stage : Stage}
    {m : PlumtreeAppMessage K A M} {receive : WallClock} :
    ({ s.found stage r with
      delivered := s.delivered ++ deliverOf receive (.deliver m) } : Session K A M R).shelf =
      r.2.shelf (s.handedOut ++ r.1.toList) (s.delivered ++ [(m, receive.now)]) := by
  obtain ⟨_ | x, node⟩ := r
  · rw [Option.toList_none, List.append_nil]
    rfl
  · rfl

omit [Rng R] in
lemma delivering_of_executed {b : Bool} {a : Option (PlumtreeAction K A M)}
    {p : PlumtreeNode K A M} (hs : s.stage = .plumtree b)
    (ha : s.node.plumtreeNode.pollAction = .ok (a, p)) :
    s.delivering = a.bind Plumtree.Action.delivered := by
  simp only [delivering, hs, ha]
  rfl

lemma shelf_of_step (h : s.step i = .ok t) :
    s.shelf.Step stamp (s.searching i) (s.buffered i) t.shelf := by
  have hstill : ∀ {m : P2PNode K A M R} {stage : Stage}, Undisturbed s.node m →
      s.shelf.Step stamp none none
        ({ s with node := m, stage := stage } : Session K A M R).shelf := by
    intro m stage hm
    have he : ({ s with node := m, stage := stage } : Session K A M R).shelf = s.shelf := by
      simp only [shelf, P2PNode.shelf, hm.messageBuffer, hm.processedMessages]
    exact he ▸ .still
  have hnone : ∀ {receive now : WallClock}, (∀ b, s.stage ≠ .plumtree b) →
      s.buffered (.advance receive now) = none := by
    intro receive now hs
    cases hst : s.stage with
    | plumtree b => exact absurd hst (hs b)
    | _ => simp only [buffered, delivering, hst]
  have hquiet : ∀ {receive now : WallClock}, (∀ b, s.stage ≠ .buffer b) →
      s.searching (.advance receive now) =
        (s.buffered (.advance receive now)).map (fun _ => now) := by
    intro receive now hs
    cases hst : s.stage with
    | buffer b => exact absurd hst (hs b)
    | _ => simp only [searching, buffered, hst]
  cases stepped_of_step h with
  | refused hi =>
    cases i with
    | advance receive now =>
      rw [hquiet (by simp [hi receive now rfl]), hnone (by simp [hi receive now rfl])]
      exact .still
    | _ => exact .still
  | joined hs => exact hstill ⟨rfl, rfl⟩
  | broadcast hs hn =>
    obtain ⟨_, _, _, rfl⟩ := P2PNode.broadcast_ok hn
    exact hstill ⟨rfl, rfl⟩
  | left hs => exact hstill (by rw [P2PNode.leave_eq]; exact ⟨rfl, rfl⟩)
  | arrived => exact hstill ⟨rfl, rfl⟩
  | reordered => exact hstill ⟨rfl, rfl⟩
  | polled hs => exact hstill ⟨rfl, rfl⟩
  | ticked hs hn =>
    obtain ⟨_, _, _, _, _, _, _, _, _, rfl⟩ := P2PNode.handleTick_ok hn
    exact hstill ⟨rfl, rfl⟩
  | acted hs ha hn =>
    rw [hquiet (by simp [hs]), hnone (by simp [hs])]
    have hu := handleHyparviewAction_undisturbed hn
    exact hstill ⟨hu.messageBuffer, hu.processedMessages⟩
  | drained hs ha =>
    rw [hquiet (by simp [hs]), hnone (by simp [hs])]
    exact hstill ⟨rfl, rfl⟩
  | @searched b receive now r hs hr =>
    have hsearching : s.searching (.advance receive now) = some now := by
      simp only [searching, hs]
    rw [hsearching, hnone (by simp [hs]), shelf_found]
    exact .searched (((processSequentialMessages_spec _ _).of_ok hr).shelf _ _)
  | @executed b receive now a p r hs ha hr =>
    have hd : s.buffered (.advance receive now) = a.delivered := delivering_of_executed hs ha
    rw [hquiet (by simp [hs]), hd]
    cases a with
    | send d msg =>
      cases hr
      rw [deliverOf, List.append_nil]
      exact hstill ⟨rfl, rfl⟩
    | deliver m =>
      have hsearch := (processSequentialMessages_spec _ _).of_ok hr
      rw [shelf_delivered]
      exact .delivered m receive.now (hsearch.shelf _ _)
  | @exhausted b receive now p hs ha =>
    have hd : s.buffered (.advance receive now) = none := delivering_of_executed hs ha
    rw [hquiet (by simp [hs]), hd]
    exact hstill ⟨rfl, rfl⟩
  | received hs hm hn =>
    rw [hquiet (by simp [hs]), hnone (by simp [hs])]
    have hu := handleP2pnodeProtocolMessage_undisturbed hn
    exact hstill ⟨hu.messageBuffer, hu.processedMessages⟩
  | ended hs hm =>
    rw [hquiet (by simp [hs]), hnone (by simp [hs])]
    exact hstill ⟨rfl, rfl⟩

/-- A poll that executes Plumtree's actions has searched the buffer before, and found nothing. -/
lemma spent_of_step (h : s.step i = .ok t)
    (hs : ∀ b, s.stage = .plumtree b → s.shelf.Spent stamp) :
    ∀ b, t.stage = .plumtree b → t.shelf.Spent stamp := by
  have hfound : ∀ {u : Session K A M R} {now : WallClock} {stage : Stage} {del}
      {r : Option (PlumtreeAppMessage K A M) × P2PNode K A M R}, Search now u.node r →
      ∀ b, (s.found stage r).stage = .plumtree b →
      (r.2.shelf (s.handedOut ++ r.1.toList) del).Spent stamp := by
    intro u now stage del r hr b hb
    obtain ⟨_ | m, node⟩ := r
    · exact (hr.shelf s.handedOut del).spent (by simp [P2PNode.shelf])
    · cases hb
  intro b hb
  cases stepped_of_step h with
  | refused => exact hs b hb
  | joined hstage | broadcast hstage | left hstage => simp [hstage] at hb
  | arrived => exact hs b hb
  | reordered => exact hs b hb
  | polled | ticked | acted | drained | exhausted => simp at hb
  | received | ended => split at hb <;> simp at hb
  | @searched b' receive now r hstage hr =>
    rw [shelf_found]
    exact hfound (u := s) ((processSequentialMessages_spec _ _).of_ok hr) b hb
  | @executed b' receive now a p r hstage ha hr =>
    cases a with
    | send d msg =>
      cases hr
      rw [deliverOf, List.append_nil]
      exact hs b' hstage
    | deliver m =>
      rw [shelf_delivered]
      exact hfound (u := { s with node := _ }) ((processSequentialMessages_spec _ _).of_ok hr) b hb

variable {s₀ : Session K A M R} {tr : List (Taken (Session K A M R) (Input K A M))}
  {nodeId : NodeId K A} {rng : R} {draws : Draws} {choices : List ℕ}

omit [DecidableEq K] [DecidableEq A] [Rng R] in
lemma shelf_new (h : Session.new nodeId rng draws choices = .ok s₀) :
    s₀.shelf = ⟨.empty, [], [], []⟩ := by
  obtain ⟨_, _, _, rfl⟩ := new_ok h
  rfl

/-- The identifiers of the messages that a run broadcasts. -/
def broadcastIds (tr : List (Taken (Session K A M R) (Input K A M))) : List (MessageId K A) :=
  tr.filterMap (fun e =>
    match e.input with
    | .broadcast messagePayload clock =>
      if e.before.stage = .idle then
        (e.before.node.broadcast messagePayload clock).toOption.map Prod.fst
      else none
    | _ => none)

/-- The readings of the system clock, in the order in which they are taken. -/
def readings : Input K A M → List ℕ
  | .broadcast _ clock => [clock.now]
  | .advance receive now => [receive.now, now.now]
  | _ => []

/-- The messages that gave up their places in the buffer in the steps of a run. -/
def displaced (tr : List (Taken (Session K A M R) (Input K A M))) :
    Multiset (PlumtreeAppMessage K A M) :=
  (tr.map (fun e => e.before.shelf.displaced stamp (e.before.buffered e.input))).sum

lemma conserved_of_run (h₀ : Session.new nodeId rng draws choices = .ok s₀)
    (h : Run step s₀ tr s) :
    ↑s.handedOut + s.shelf.pending + displaced tr = ↑(s.delivered.map Prod.fst) := by
  induction h with
  | start =>
    have hs := shelf_new h₀
    have hh : s₀.handedOut = [] := congrArg Shelf.handedOut hs
    have hd : s₀.delivered = [] := congrArg Shelf.delivered hs
    have hb : s₀.shelf.buffer = .empty := congrArg Shelf.buffer hs
    simp [displaced, hh, hd, Shelf.pending, hb, BTreeMap.contents, BTreeMap.empty]
  | @next tr t u i _ hstep ih =>
    have hc := (shelf_of_step hstep).conserved
    change ↑u.handedOut + u.shelf.pending + _ + ↑(t.delivered.map Prod.fst) =
      ↑t.handedOut + t.shelf.pending + ↑(u.delivered.map Prod.fst) at hc
    have hsum : displaced (tr ++ [⟨t, i, u⟩]) =
        displaced tr + t.shelf.displaced stamp (t.buffered i) := by
      simp [displaced]
    rw [← ih, ← add_assoc] at hc
    rw [hsum]
    have hcancel : ↑t.handedOut + t.shelf.pending + (↑u.handedOut + u.shelf.pending +
        (displaced tr + t.shelf.displaced stamp (t.buffered i))) =
        ↑t.handedOut + t.shelf.pending + ↑(u.delivered.map Prod.fst) := by
      rw [← hc]
      abel
    exact add_left_cancel hcancel

/-- The messages of the executed Deliver actions are the ones handed out and the ones in the buffer,
if and only if none of them came while the buffer had one of its timestamp. -/
theorem delivered_kept (h₀ : Session.new nodeId rng draws choices = .ok s₀)
    (h : Run step s₀ tr s) :
    (↑s.handedOut + s.shelf.pending : Multiset (PlumtreeAppMessage K A M)) =
        ↑(s.delivered.map Prod.fst) ↔
      ∀ e ∈ tr, ∀ m ∈ e.before.buffered e.input,
        e.before.node.messageBuffer.get m.id.timestamp = none := by
  rw [← conserved_of_run h₀ h, left_eq_add, displaced, List.sum_eq_zero_iff, List.forall_mem_map]
  refine forall₂_congr fun e _ => ?_
  cases e.before.buffered e.input with
  | none => simp [Shelf.displaced]
  | some m =>
    have hget : e.before.shelf.buffer.get (stamp m) =
      e.before.node.messageBuffer.get m.id.timestamp := rfl
    simp only [Shelf.displaced, hget, Option.mem_some_iff, forall_eq']
    cases e.before.node.messageBuffer.get m.id.timestamp <;> simp

end Steps

/-- Two messages are broadcast in the same millisecond, or in two. -/
def twins (second : ℕ) : List (Input ℕ ℕ ℕ) :=
  [.broadcast 7 (some 1000), .broadcast 8 (some second)] ++ polled second

/-- The first of two messages of one millisecond is lost. -/
theorem twin_lost : ∃ (s : Session ℕ ℕ ℕ Playback)
    (tr : List (Taken (Session ℕ ℕ ℕ Playback) (Input ℕ ℕ ℕ))), Run step solo tr s ∧
      (broadcastIds tr).Nodup ∧
      ¬ (↑s.handedOut + s.shelf.pending : Multiset (PlumtreeAppMessage ℕ ℕ ℕ)) =
        ↑(s.delivered.map Prod.fst) := by
  refine ⟨_, _, Run.of_follow (twins 1000) rfl, by decide, fun h => ?_⟩
  have hcard := congrArg Multiset.card h
  revert hcard
  decide

theorem delivered_kept_apart : ∃ (s : Session ℕ ℕ ℕ Playback)
    (tr : List (Taken (Session ℕ ℕ ℕ Playback) (Input ℕ ℕ ℕ))), Run step solo tr s ∧
      s.delivered.map (fun e => e.1.payload) = [7, 8] ∧
      (↑s.handedOut + s.shelf.pending : Multiset (PlumtreeAppMessage ℕ ℕ ℕ)) =
        ↑(s.delivered.map Prod.fst) :=
  ⟨_, _, Run.of_follow (twins 1001) rfl, by decide,
    (delivered_kept new_solo (Run.of_follow (twins 1001) rfl)).mpr (by decide)⟩

section Steps

variable [DecidableEq K] [DecidableEq A] [Rng R] {s₀ : Session K A M R}
  {tr : List (Taken (Session K A M R) (Input K A M))} {nodeId : NodeId K A} {rng : R}
  {draws : Draws} {choices : List ℕ}

/-- The step is a search at which the message of the least timestamp put in so far has waited for
more than the delay. -/
def Opens (e : Taken (Session K A M R) (Input K A M)) : Prop :=
  ∃ clock ∈ e.before.searching e.input,
    ∃ f ∈ Shelf.foremost stamp e.after.delivered, Overdue clock f.2

/-- The message that the step puts into the buffer has no smaller timestamp than one put before. -/
def Onward (e : Taken (Session K A M R) (Input K A M)) : Prop :=
  ∀ m ∈ e.before.buffered e.input, ∀ d ∈ e.before.delivered, d.1.id.timestamp ≤ m.id.timestamp

instance (e : Taken (Session K A M R) (Input K A M)) : Decidable (Opens e) :=
  inferInstanceAs (Decidable (∃ _ ∈ _, ∃ _ ∈ _, _))

instance (e : Taken (Session K A M R) (Input K A M)) : Decidable (Onward e) :=
  inferInstanceAs (Decidable (∀ _ ∈ _, ∀ _ ∈ _, _))

/-- What the steps of a run tell of the order in which messages leave the buffer. -/
structure Progress (tr : List (Taken (Session K A M R) (Input K A M))) (s : Session K A M R) :
    Prop extends s.shelf.Logged stamp where
  opened : s.handedOut ≠ [] ↔ ∃ e ∈ tr, Opens e
  spent : ∀ b, s.stage = .plumtree b → s.shelf.Spent stamp
  inOrder : s.shelf.InOrder stamp ↔ tr.Pairwise (fun e' e => Opens e' → Onward e)

omit [Rng R] in
lemma onward_iff (hlog : s.shelf.Logged stamp)
    (hspent : ∀ b, s.stage = .plumtree b → s.shelf.Spent stamp) (ho : s.shelf.InOrder stamp)
    (hne : s.handedOut ≠ []) : Onward ⟨s, i, t⟩ ↔
      ∀ a ∈ s.buffered i, ∀ b ∈ s.handedOut, stamp b ≤ stamp a := by
  refine forall₂_congr fun m hm => ?_
  have hempty : s.shelf.buffer.entries = [] := by
    cases i with
    | advance receive now =>
      cases hst : s.stage with
      | plumtree b => exact hspent b hst ho hne
      | _ => simp [buffered, delivering, hst] at hm
    | _ => cases hm
  have hstamps : ∀ k, (∃ d ∈ s.delivered, stamp d.1 = k) ↔ ∃ a ∈ s.handedOut, stamp a = k := by
    intro k
    have hk := hlog.put_iff k
    simp only [hempty, List.not_mem_nil, false_and, exists_false, or_false] at hk
    exact hk
  constructor
  · intro h b hb
    obtain ⟨d, hd, hdb⟩ := (hstamps _).mpr ⟨b, hb, rfl⟩
    exact hdb ▸ h d hd
  · intro h d hd
    obtain ⟨b, hb, hbd⟩ := (hstamps _).mp ⟨d, hd, rfl⟩
    exact (hbd ▸ h b hb : stamp d.1 ≤ stamp m)

lemma Progress.step (h : Progress tr s) (hs : s.step i = .ok t) :
    Progress (tr ++ [⟨s, i, t⟩]) t := by
  have hshelf := shelf_of_step hs
  have hopened := h.toLogged.opened hshelf
  refine ⟨h.toLogged.step hshelf, ?_, spent_of_step hs h.spent, ?_⟩
  · change t.handedOut ≠ [] ↔ s.handedOut ≠ [] ∨ Opens ⟨s, i, t⟩ at hopened
    rw [hopened, h.opened]
    simp only [List.mem_append, List.mem_singleton, or_and_right, exists_or, exists_eq_left]
  · rw [hshelf.inOrder_iff h.toTracked, List.pairwise_append, ← h.inOrder]
    refine and_congr_right fun ho => ?_
    simp only [List.pairwise_singleton, List.mem_singleton, forall_eq, true_and]
    change (∀ a ∈ s.buffered i, ∀ b ∈ s.handedOut, stamp b ≤ stamp a) ↔ _
    by_cases hne : s.handedOut = []
    · refine iff_of_true (fun a _ b hb => ?_) fun e he ho => ?_
      · rw [hne] at hb
        cases hb
      · exact absurd hne (h.opened.mpr ⟨e, he, ho⟩)
    · rw [← onward_iff (t := t) h.toLogged h.spent ho hne]
      obtain ⟨e, he, hopens⟩ := h.opened.mp hne
      exact ⟨fun h _ _ _ => h, fun h => h e he hopens⟩

lemma progress_of_run (h₀ : Session.new nodeId rng draws choices = .ok s₀)
    (h : Run step s₀ tr s) : Progress tr s := by
  refine h.history (fun _ _ _ _ ht hs => ht.step hs) ?_
  obtain ⟨_, _, _, rfl⟩ := new_ok h₀
  have hnone : ∀ e : ℕ × PlumtreeAppMessage K A M × ℕ, e ∉ (BTreeMap.empty).entries :=
    fun _ => List.not_mem_nil
  refine ⟨⟨⟨rfl, fun e he => absurd he (hnone e)⟩, fun k => ?_, fun _ => rfl⟩, by simp, ?_, ?_⟩
  · simp [shelf, P2PNode.shelf, BTreeMap.empty]
  · intro b hb
    cases hb
  · exact iff_of_true ⟨rfl, fun e he => absurd he (hnone e), .nil,
      fun e he => absurd he (hnone e)⟩ .nil

/-- Messages are handed out in the order of their timestamps, none before one that is still in the
buffer, if and only if none comes behind one that came before it once a search has found that the
foremost has waited for more than the delay. -/
theorem handed_out_in_order (h₀ : Session.new nodeId rng draws choices = .ok s₀)
    (h : Run step s₀ tr s) :
    ((s.handedOut.map (fun m => m.id.timestamp)).Pairwise (· ≤ ·) ∧
        ∀ m ∈ s.shelf.pending, ∀ a ∈ s.handedOut, a.id.timestamp ≤ m.id.timestamp) ↔
      tr.Pairwise (fun e' e => Opens e' → Onward e) := by
  have hp := progress_of_run h₀ h
  rw [← hp.inOrder]
  have hpending : ∀ m, m ∈ s.shelf.pending ↔ ∃ e ∈ s.shelf.buffer.entries, e.2.1 = m := by
    simp [Shelf.pending, BTreeMap.contents]
  constructor
  · rintro ⟨hsorted, hahead⟩
    refine ⟨hp.back_eq, hp.keyed, hsorted, fun e he a ha => ?_⟩
    rw [hp.keyed e he]
    exact hahead _ ((hpending _).mpr ⟨e, he, rfl⟩) a ha
  · intro ho
    refine ⟨ho.sorted, fun m hm a ha => ?_⟩
    obtain ⟨e, he, rfl⟩ := (hpending m).mp hm
    exact (hp.keyed e he ▸ ho.ahead e he a ha : stamp a ≤ stamp e.2.1)

end Steps

/-- A message of another node, with its number and its timestamp. -/
def gossiped (seqno timestamp : ℕ) : Input ℕ ℕ ℕ :=
  .arrive (.plumtree (.gossip ⟨⟨[], 1⟩, ⟨⟨⟨[], 1⟩, seqno, timestamp⟩, 0⟩, 0⟩))

/-- The first message waits for the delay to pass, and the second follows it at once. -/
def punctual : List (Input ℕ ℕ ℕ) :=
  .arrive (.hyparview (.join ⟨⟨[], 1⟩⟩)) :: polled 1000 ++ gossiped 0 100 :: polled 2000 ++
    polled 3100 ++ gossiped 2 300 :: polled 4000

theorem handed_out_in_order_punctual : ∃ (s : Session ℕ ℕ ℕ Playback)
    (tr : List (Taken (Session ℕ ℕ ℕ Playback) (Input ℕ ℕ ℕ))), Run step solo tr s ∧
      (∃ e ∈ tr, Opens e) ∧ s.handedOut.length = 2 ∧
      (s.handedOut.map (fun m => m.id.timestamp)).Pairwise (· ≤ ·) := by
  have hrun : follow step solo punctual = .ok _ := rfl
  exact ⟨_, _, Run.of_follow punctual hrun, by decide +kernel, by decide,
    ((handed_out_in_order new_solo (Run.of_follow punctual hrun)).mpr (by decide +kernel)).1⟩

set_option maxRecDepth 2000 in
/-- A third message, half a second behind the second, comes out after it. -/
theorem handed_out_late : ∃ (s : Session ℕ ℕ ℕ Playback)
    (tr : List (Taken (Session ℕ ℕ ℕ Playback) (Input ℕ ℕ ℕ))), Run step solo tr s ∧
      (tr.flatMap (fun e => readings e.input)).IsChain (· ≤ ·) ∧
      (∀ x ∈ s.delivered, ∀ y ∈ s.delivered, x.1.id.timestamp < y.1.id.timestamp →
        x.2 ≤ y.2 + maxOutOfOrderDelayMs) ∧
      ¬ (s.handedOut.map (fun m => m.id.timestamp)).Pairwise (· ≤ ·) :=
  ⟨_, _, Run.of_follow (punctual ++ gossiped 1 200 :: polled 4500 ++ polled 5600) rfl,
    by decide, by decide, by decide⟩

end Session

end QuicP2p.P2p
