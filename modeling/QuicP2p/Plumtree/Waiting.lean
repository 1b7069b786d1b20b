import QuicP2p.Plumtree.Missing

/-! The table of missing messages as a multiset of waiting announcements. -/

namespace QuicP2p.Plumtree

open Library

variable {N I : Type} [DecidableEq I]

namespace QueueItem

def isMessage : QueueItem N I → Bool
  | message _ _ _ => true
  | entry _ _ _ => false

/-- The entry that counts the item among its owners. -/
def owner : QueueItem N I → Option (I × ℕ)
  | message _ s ihave => some (ihave.messageId, s)
  | entry _ _ _ => none

/-- The announcement of the item, with its timeout, if its entry is still there. -/
def live (ihaves : HashMap I (IhaveEntry N)) :
    QueueItem N I → Option (NodeTime × IhaveMessage N I)
  | message t s ihave =>
    if (ihaves.get ihave.messageId).map IhaveEntry.seqno = some s then some (t, ihave) else none
  | entry _ _ _ => none

omit [DecidableEq I] in
@[simp] lemma owner_message {t : NodeTime} {s : ℕ} {ihave : IhaveMessage N I} :
    (message t s ihave).owner = some (ihave.messageId, s) := rfl

omit [DecidableEq I] in
@[simp] lemma owner_entry {t : NodeTime} {s : ℕ} {i : I} :
    (entry t s i : QueueItem N I).owner = none := rfl

omit [DecidableEq I] in
lemma owner_eq_iff {x : QueueItem N I} {i : I} {s : ℕ} :
    x.owner = some (i, s) ↔ x.isMessage = true ∧ x.messageId = i ∧ x.entrySeqno = s := by
  cases x with
  | message t s' ihave => simp [isMessage, messageId, entrySeqno]
  | entry t s' j => simp [isMessage]

end QueueItem

namespace MissingMessages

def queuedMessages (m : MissingMessages N I) : ℕ :=
  m.timeoutQueue.contents.countP (fun x => x.isMessage = true)

def queuedEntries (m : MissingMessages N I) : ℕ :=
  m.timeoutQueue.contents.countP (fun x => x.isMessage = false)

/-- How many items the queue can give out, with those that its announcements will leave in it. -/
def load (m : MissingMessages N I) : ℕ := 2 * m.queuedMessages + m.queuedEntries

/-- The announcements whose timeouts are to come. -/
def waiting (m : MissingMessages N I) : Multiset (NodeTime × IhaveMessage N I) :=
  m.timeoutQueue.contents.filterMap (QueueItem.live m.ihaves)

/-- The time at which the next announcement of a message is due. -/
def dueTime (m : MissingMessages N I) (ihave : IhaveMessage N I) (clock : Clock)
    (timeout : Duration) : NodeTime :=
  ((m.ihaves.get ihave.messageId).getD (m.freshEntry ihave clock timeout)).nextExpiryTime

/-- The message is known to exist and has not arrived. -/
def Recorded (m : MissingMessages N I) (i : I) : Prop := ∃ e, m.ihaves.get i = some e

/-- The entries of `m'` are entries of `m`, due at the same time. -/
def Inherits (m m' : MissingMessages N I) : Prop :=
  ∀ i e', m'.ihaves.get i = some e' →
    ∃ e, m.ihaves.get i = some e ∧ e'.nextExpiryTime = e.nextExpiryTime

structure Valid (m : MissingMessages N I) : Prop where
  items_lt : ∀ x ∈ m.timeoutQueue.contents, x.entrySeqno < m.entrySeqno
  entries_lt : ∀ i e, m.ihaves.get i = some e → e.seqno < m.entrySeqno
  owners_eq : ∀ i e, m.ihaves.get i = some e →
    e.owners = m.timeoutQueue.contents.countP (fun x => x.owner = some (i, e.seqno))
  idle : ∀ i e, m.ihaves.get i = some e → e.owners = 0 →
    ∃ t, .entry t e.seqno i ∈ m.timeoutQueue.contents

variable {m m' k : MissingMessages N I} {queue : BinaryHeap (QueueItem N I)} {x : QueueItem N I}

omit [DecidableEq I] in
lemma load_cons {k : MissingMessages N I}
    (hq : m.timeoutQueue.contents = x ::ₘ k.timeoutQueue.contents) :
    m.load = (if x.isMessage then 2 else 1) + k.load := by
  simp only [load, queuedMessages, queuedEntries, hq, Multiset.countP_cons]
  cases x.isMessage <;> simp <;> omega

lemma new_valid (choices : List ℕ) : (new choices : MissingMessages N I).Valid where
  items_lt x hx := by simp [new] at hx
  entries_lt i e he := by simp [new] at he
  owners_eq i e he := by simp [new] at he
  idle i e he := by simp [new] at he

@[simp] lemma waiting_new (choices : List ℕ) :
    (new choices : MissingMessages N I).waiting = 0 := rfl

lemma mem_waiting {t : NodeTime} {ihave : IhaveMessage N I} :
    (t, ihave) ∈ m.waiting ↔ ∃ e, m.ihaves.get ihave.messageId = some e ∧
      .message t e.seqno ihave ∈ m.timeoutQueue.contents := by
  rw [waiting, Multiset.mem_filterMap]
  constructor
  · rintro ⟨x, hx, hl⟩
    cases x with
    | entry t s i => simp [QueueItem.live] at hl
    | message t' s ihave' =>
      simp only [QueueItem.live, Option.ite_none_right_eq_some, Option.map_eq_some_iff,
        Option.some.injEq, Prod.mk.injEq] at hl
      obtain ⟨⟨e, he, rfl⟩, rfl, rfl⟩ := hl
      exact ⟨e, he, hx⟩
  · rintro ⟨e, he, hx⟩
    exact ⟨_, hx, by simp [QueueItem.live, he]⟩

lemma waiting_recorded {t : NodeTime} {ihave : IhaveMessage N I} (h : (t, ihave) ∈ m.waiting) :
    m.Recorded ihave.messageId := by
  obtain ⟨e, he, _⟩ := mem_waiting.mp h
  exact ⟨e, he⟩

lemma recorded_push {ihave : IhaveMessage N I} {clock : Clock} {timeout : Duration} {i : I} :
    (m.push ihave clock timeout).Recorded i ↔ i = ihave.messageId ∨ m.Recorded i :=
  HashMap.exists_get_insert

lemma recorded_remove {i j : I} : (m.remove j).Recorded i ↔ i ≠ j ∧ m.Recorded i := by
  simp only [Recorded, remove, HashMap.get_remove]
  split_ifs with hi <;> simp [hi]

lemma live_congr {a b : HashMap I (IhaveEntry N)}
    (h : (a.get x.messageId).map IhaveEntry.seqno = (b.get x.messageId).map IhaveEntry.seqno) :
    x.live a = x.live b := by
  cases x with
  | message t s ihave =>
    simp only [QueueItem.messageId] at h
    simp only [QueueItem.live, h]
  | entry t s i => rfl

lemma Valid.live_insert (h : m.Valid) (i : I) {e : IhaveEntry N}
    (he : ∀ e', m.ihaves.get i = some e' → e.seqno = e'.seqno)
    (hn : m.ihaves.get i = none → e.seqno = m.entrySeqno) (hx : x ∈ m.timeoutQueue.contents) :
    x.live (m.ihaves.insert i e) = x.live m.ihaves := by
  by_cases hi : x.messageId = i
  · cases hl : m.ihaves.get i with
    | some e' => exact live_congr (by simp [hi, hl, he e' hl])
    | none =>
      have hs := h.items_lt x hx
      cases x with
      | entry t s j => rfl
      | message t s ihave =>
        have hi : ihave.messageId = i := hi
        have hne : m.entrySeqno ≠ s := fun hq => absurd hs (by simp [QueueItem.entrySeqno, hq])
        simp [QueueItem.live, hi, hl, hn hl, hne]
  · exact live_congr (by rw [HashMap.get_insert_of_ne hi])

/-- The entry that an announcement joins, old or new, counts the items it owns. -/
lemma Valid.joined (h : m.Valid) (ihave : IhaveMessage N I) (clock : Clock) (timeout : Duration)
    {e : IhaveEntry N}
    (he : (m.ihaves.get ihave.messageId).getD (m.freshEntry ihave clock timeout) = e) :
    e.owners = m.timeoutQueue.contents.countP
        (fun x => x.owner = some (ihave.messageId, e.seqno)) ∧
      e.seqno < (if e.owners + 1 = 1 then m.entrySeqno + 1 else m.entrySeqno) := by
  cases hl : m.ihaves.get ihave.messageId with
  | some e' =>
    rw [hl, Option.getD_some] at he
    subst he
    have hlt := h.entries_lt _ _ hl
    exact ⟨h.owners_eq _ _ hl, by split <;> omega⟩
  | none =>
    rw [hl, Option.getD_none] at he
    subst he
    have hnone : ∀ x ∈ m.timeoutQueue.contents,
        ¬ x.owner = some (ihave.messageId, m.entrySeqno) := by
      intro x hx ho
      have hlt := h.items_lt x hx
      cases x with
      | message t s j =>
        simp only [QueueItem.owner, Option.some.injEq, Prod.mk.injEq] at ho
        exact absurd ho.2 hlt.ne
      | entry t s j => simp [QueueItem.owner] at ho
    exact ⟨(Multiset.countP_eq_zero.mpr hnone).symm, by simp [freshEntry]⟩

lemma push_spec (h : m.Valid) (ihave : IhaveMessage N I) (clock : Clock) (timeout : Duration) :
    (m.push ihave clock timeout).Valid ∧
      (m.push ihave clock timeout).waiting =
        (m.dueTime ihave clock timeout, ihave) ::ₘ m.waiting := by
  obtain ⟨e, he⟩ :
      ∃ e, (m.ihaves.get ihave.messageId).getD (m.freshEntry ihave clock timeout) = e := ⟨_, rfl⟩
  obtain ⟨howners, hlt⟩ := h.joined ihave clock timeout he
  have hle : m.entrySeqno ≤ if e.owners + 1 = 1 then m.entrySeqno + 1 else m.entrySeqno := by
    split <;> omega
  simp only [push, dueTime, he]
  refine ⟨⟨?_, ?_, ?_, ?_⟩, ?_⟩
  · intro x hx
    rw [BinaryHeap.contents_push, Multiset.mem_cons] at hx
    rcases hx with rfl | hx
    · exact hlt
    · exact (h.items_lt x hx).trans_le hle
  · intro i e' hi
    rcases HashMap.get_insert_eq_some.mp hi with ⟨_, rfl⟩ | ⟨_, hi⟩
    · exact hlt
    · exact (h.entries_lt i e' hi).trans_le hle
  · intro i e' hi
    simp only [BinaryHeap.contents_push, Multiset.countP_cons, QueueItem.owner_message]
    rcases HashMap.get_insert_eq_some.mp hi with ⟨rfl, rfl⟩ | ⟨hii, hi⟩
    · simp [howners]
    · have hne : ¬ some (ihave.messageId, e.seqno) = some (i, e'.seqno) := by
        intro hq
        simp only [Option.some.injEq, Prod.mk.injEq] at hq
        exact hii hq.1.symm
      simpa [hne] using h.owners_eq i e' hi
  · intro i e' hi h0
    rcases HashMap.get_insert_eq_some.mp hi with ⟨_, rfl⟩ | ⟨_, hi⟩
    · simp at h0
    · obtain ⟨t, ht⟩ := h.idle i e' hi h0
      exact ⟨t, by simp [ht]⟩
  · have hrest : m.timeoutQueue.contents.filterMap (QueueItem.live (m.ihaves.insert ihave.messageId
        { e with nextExpiryTime := e.nextExpiryTime + timeout, owners := e.owners + 1 })) =
        m.waiting := by
      refine filterMap_congr fun x hx => h.live_insert _ ?_ ?_ hx
      · intro e' hl
        rw [hl, Option.getD_some] at he
        rw [← he]
      · intro hl
        rw [hl, Option.getD_none] at he
        rw [← he]
        rfl
    rw [waiting, BinaryHeap.contents_push, Multiset.filterMap_cons_some, hrest]
    simp [QueueItem.live]

/-- What is left when an item of another entry number leaves the queue. -/
lemma Valid.drop_stale (h : m.Valid) (hq : m.timeoutQueue.contents = x ::ₘ queue.contents)
    (hs : ∀ e, m.ihaves.get x.messageId = some e → e.seqno ≠ x.entrySeqno) :
    { m with timeoutQueue := queue }.Valid ∧
      { m with timeoutQueue := queue }.waiting = m.waiting := by
  have hmem : ∀ y ∈ queue.contents, y ∈ m.timeoutQueue.contents := fun y hy =>
    hq ▸ Multiset.mem_cons_of_mem hy
  refine ⟨⟨fun y hy => h.items_lt y (hmem y hy), h.entries_lt, ?_, ?_⟩, ?_⟩
  · intro i e he
    have hne : x.owner ≠ some (i, e.seqno) := by
      intro ho
      obtain ⟨_, hi, hn⟩ := QueueItem.owner_eq_iff.mp ho
      exact hs e (hi ▸ he) hn.symm
    have hc := h.owners_eq i e he
    simpa [hq, Multiset.countP_cons, hne] using hc
  · intro i e he h0
    obtain ⟨t, ht⟩ := h.idle i e he h0
    rw [hq, Multiset.mem_cons] at ht
    rcases ht with ht | ht
    · subst ht
      exact absurd rfl (hs e he)
    · exact ⟨t, ht⟩
  · have hl : x.live m.ihaves = none := by
      cases x with
      | entry t s i => rfl
      | message t s ihave =>
        have hn : ¬ (m.ihaves.get ihave.messageId).map IhaveEntry.seqno = some s := by
          intro hm
          obtain ⟨e, he, hse⟩ := Option.map_eq_some_iff.mp hm
          exact hs e he hse
        simp only [QueueItem.live, if_neg hn]
    rw [waiting, waiting, hq, Multiset.filterMap_cons_none _ _ hl]

lemma remove_spec (h : m.Valid) (i : I) :
    (m.remove i).Valid ∧ (m.remove i).waiting = m.waiting.filter (fun a => a.2.messageId ≠ i) := by
  have hsome : ∀ {j e}, (m.ihaves.remove i).get j = some e → j ≠ i ∧ m.ihaves.get j = some e :=
    HashMap.get_remove_eq_some.mp
  refine ⟨⟨h.items_lt, ?_, ?_, ?_⟩, ?_⟩
  · exact fun j e he => h.entries_lt j e (hsome he).2
  · exact fun j e he => h.owners_eq j e (hsome he).2
  · exact fun j e he h0 => h.idle j e (hsome he).2 h0
  · rw [waiting, waiting, Multiset.filter_filterMap]
    refine filterMap_congr fun x _ => ?_
    cases x with
    | entry t s j => rfl
    | message t s ihave =>
      by_cases hi : ihave.messageId = i
      · simp only [QueueItem.live, remove, hi, HashMap.get_remove_self]
        split_ifs <;> simp_all [Option.filter_some]
      · simp only [QueueItem.live, remove, HashMap.get_remove_of_ne hi]
        split_ifs <;> simp [hi, Option.filter_some]

/-- What is left when the item that ends an entry leaves the queue. -/
lemma Valid.drop_entry (h : m.Valid) {t : NodeTime} {i : I} {e : IhaveEntry N}
    (hq : m.timeoutQueue.contents = .entry t e.seqno i ::ₘ queue.contents)
    (he : m.ihaves.get i = some e) :
    ({ m with timeoutQueue := queue }.dropIdle i).Valid ∧
      ({ m with timeoutQueue := queue }.dropIdle i).waiting = m.waiting := by
  have hmem : ∀ y ∈ queue.contents, y ∈ m.timeoutQueue.contents := fun y hy =>
    hq ▸ Multiset.mem_cons_of_mem hy
  have howners : ∀ j e', m.ihaves.get j = some e' →
      e'.owners = queue.contents.countP (fun x => x.owner = some (j, e'.seqno)) := by
    intro j e' he'
    have hc := h.owners_eq j e' he'
    simpa [hq, Multiset.countP_cons] using hc
  have hidle : ∀ j e', m.ihaves.get j = some e' → j ≠ i → e'.owners = 0 →
      ∃ t, .entry t e'.seqno j ∈ queue.contents := by
    intro j e' he' hj h0
    obtain ⟨t', ht'⟩ := h.idle j e' he' h0
    rw [hq, Multiset.mem_cons] at ht'
    rcases ht' with ht' | ht'
    · simp only [QueueItem.entry.injEq] at ht'
      exact absurd ht'.2.2 hj
    · exact ⟨t', ht'⟩
  have hwait : { m with timeoutQueue := queue }.waiting = m.waiting := by
    rw [waiting, waiting, hq, Multiset.filterMap_cons_none _ _ rfl]
  simp only [dropIdle, he, Option.map_some, Option.some.injEq]
  split
  next h0 =>
    have hsome : ∀ {j e'}, (m.ihaves.remove i).get j = some e' →
        j ≠ i ∧ m.ihaves.get j = some e' := HashMap.get_remove_eq_some.mp
    refine ⟨⟨fun y hy => h.items_lt y (hmem y hy), ?_, ?_, ?_⟩, ?_⟩
    · exact fun j e' he' => h.entries_lt j e' (hsome he').2
    · exact fun j e' he' => howners j e' (hsome he').2
    · exact fun j e' he' => hidle j e' (hsome he').2 (hsome he').1
    · -- no announcement of `i` was waiting
      have hnone : ∀ y ∈ queue.contents, y.live (m.ihaves.remove i) = y.live m.ihaves := by
        intro y hy
        by_cases hi : y.messageId = i
        · cases y with
          | entry t s j => rfl
          | message t s ihave =>
            change ihave.messageId = i at hi
            have hs : e.seqno ≠ s := by
              rintro rfl
              have hc := howners i e he
              rw [h0, eq_comm, Multiset.countP_eq_zero] at hc
              exact hc _ hy (by simp [hi])
            simp [QueueItem.live, hi, he, hs]
        · exact live_congr (by rw [HashMap.get_remove_of_ne hi])
      rw [← hwait]
      exact filterMap_congr hnone
  next h0 =>
    refine ⟨⟨fun y hy => h.items_lt y (hmem y hy), h.entries_lt, howners, ?_⟩, hwait⟩
    intro j e' he' hz
    by_cases hj : j = i
    · subst hj
      cases he.symm.trans he'
      exact absurd hz h0
    · exact hidle j e' he' hj hz

@[simp] lemma timeoutQueue_dropIdle {i : I} : (m.dropIdle i).timeoutQueue = m.timeoutQueue := by
  unfold dropIdle
  split <;> rfl

lemma Inherits.of_eq (h : m'.ihaves = m.ihaves) : Inherits m m' :=
  fun _ e' he => ⟨e', h ▸ he, rfl⟩

lemma Inherits.trans (h : Inherits m m') (h' : Inherits m' k) : Inherits m k := by
  intro i e'' he
  obtain ⟨e', he', hdue'⟩ := h' i e'' he
  obtain ⟨e, he, hdue⟩ := h i e' he'
  exact ⟨e, he, hdue'.trans hdue⟩

lemma inherits_remove (i : I) : Inherits m (m.remove i) := by
  intro j e he
  exact ⟨e, (HashMap.get_remove_eq_some.mp he).2, rfl⟩

lemma inherits_dropIdle (i : I) : Inherits m (m.dropIdle i) := by
  unfold dropIdle
  split
  · exact inherits_remove i
  · exact .of_eq rfl

lemma Inherits.recorded (h : Inherits m m') {i : I} (hi : m'.Recorded i) : m.Recorded i := by
  obtain ⟨e', he'⟩ := hi
  obtain ⟨e, he, _⟩ := h i e' he'
  exact ⟨e, he⟩

/-- What is left when an announcement leaves its entry, which waits to end if it has no other. -/
lemma Valid.drop_message (h : m.Valid) {t : NodeTime} {ihave : IhaveMessage N I}
    {e e' : IhaveEntry N} {q : BinaryHeap (QueueItem N I)}
    (hq : m.timeoutQueue.contents = .message t e.seqno ihave ::ₘ queue.contents)
    (he : m.ihaves.get ihave.messageId = some e) (hs : e'.seqno = e.seqno)
    (ho : e.owners = e'.owners + 1)
    (hlast : q.contents = queue.contents ∧ e'.owners ≠ 0 ∨
      ∃ t', q.contents = .entry t' e.seqno ihave.messageId ::ₘ queue.contents) :
    { m with ihaves := m.ihaves.insert ihave.messageId e', timeoutQueue := q }.Valid ∧
      m.waiting = (t, ihave) ::ₘ
        { m with ihaves := m.ihaves.insert ihave.messageId e', timeoutQueue := q }.waiting := by
  have hsome : ∀ {j e''}, (m.ihaves.insert ihave.messageId e').get j = some e'' →
      j = ihave.messageId ∧ e' = e'' ∨ j ≠ ihave.messageId ∧ m.ihaves.get j = some e'' :=
    HashMap.get_insert_eq_some.mp
  have hcount : ∀ o, q.contents.countP (fun x => x.owner = some o) =
      queue.contents.countP (fun x => x.owner = some o) := by
    intro o
    rcases hlast with ⟨hlast, _⟩ | ⟨t', hlast⟩
    · rw [hlast]
    · simp [hlast]
  have hold : ∀ y ∈ queue.contents, y ∈ m.timeoutQueue.contents := fun y hy =>
    hq ▸ Multiset.mem_cons_of_mem hy
  have hsub : ∀ y ∈ queue.contents, y ∈ q.contents := by
    intro y hy
    rcases hlast with ⟨hlast, _⟩ | ⟨t', hlast⟩
    · rwa [hlast]
    · rw [hlast]
      exact Multiset.mem_cons_of_mem hy
  refine ⟨⟨?_, ?_, ?_, ?_⟩, ?_⟩
  · intro y hy
    rcases hlast with ⟨hlast, _⟩ | ⟨t', hlast⟩
    · exact h.items_lt y (hold y (hlast ▸ hy))
    · simp only [hlast, Multiset.mem_cons] at hy
      rcases hy with rfl | hy
      · exact h.entries_lt _ _ he
      · exact h.items_lt y (hold y hy)
  · intro j e'' he''
    rcases hsome he'' with ⟨_, rfl⟩ | ⟨_, he''⟩
    · exact hs ▸ h.entries_lt _ _ he
    · exact h.entries_lt j e'' he''
  · intro j e'' he''
    rw [hcount]
    rcases hsome he'' with ⟨rfl, rfl⟩ | ⟨hj, he''⟩
    · have hc := h.owners_eq _ _ he
      simp only [hq, Multiset.countP_cons, QueueItem.owner_message, if_true, ho] at hc
      rw [hs]
      omega
    · have hc := h.owners_eq j e'' he''
      simpa [hq, Multiset.countP_cons, Ne.symm hj] using hc
  · intro j e'' he'' h0
    rcases hsome he'' with ⟨rfl, rfl⟩ | ⟨hj, he''⟩
    · rcases hlast with ⟨_, hne⟩ | ⟨t', hlast⟩
      · exact absurd h0 hne
      · exact ⟨t', by simp [hlast, hs]⟩
    · obtain ⟨t', ht'⟩ := h.idle j e'' he'' h0
      rw [hq, Multiset.mem_cons] at ht'
      rcases ht' with ht' | ht'
      · cases ht'
      · exact ⟨t', hsub _ ht'⟩
  · have hlive : ∀ x : QueueItem N I, x.live (m.ihaves.insert ihave.messageId e') =
        x.live m.ihaves := by
      intro x
      by_cases hi : x.messageId = ihave.messageId
      · apply live_congr
        rw [hi, HashMap.get_insert_self, he, Option.map_some, Option.map_some, hs]
      · exact live_congr (by rw [HashMap.get_insert_of_ne hi])
    have hrest : q.contents.filterMap (QueueItem.live m.ihaves) =
        queue.contents.filterMap (QueueItem.live m.ihaves) := by
      rcases hlast with ⟨hlast, _⟩ | ⟨t', hlast⟩
      · rw [hlast]
      · rw [hlast, Multiset.filterMap_cons_none _ _ rfl]
    have hx : QueueItem.live m.ihaves (.message t e.seqno ihave) = some (t, ihave) := by
      simp [QueueItem.live, he]
    rw [waiting, waiting, hq, Multiset.filterMap_cons_some _ _ _ hx,
      filterMap_congr fun x _ => hlive x, hrest]

lemma takeIhave_inherits {ihave : IhaveMessage N I} (h : m.takeIhave ihave = .ok m') :
    Inherits m m' := by
  cases hget : m.ihaves.get ihave.messageId with
  | none =>
    rw [takeIhave, hget] at h
    cases h
  | some entry =>
    simp only [takeIhave, hget, orPanic_some, ok_bind] at h
    split_ifs at h with hzero
    all_goals
      cases h
      intro i e' he
      rcases HashMap.get_insert_eq_some.mp he with ⟨rfl, rfl⟩ | ⟨_, he⟩
      · exact ⟨entry, hget, rfl⟩
      · exact ⟨e', he, rfl⟩

lemma Valid.take (h : m.Valid) {t : NodeTime} {ihave : IhaveMessage N I} {e : IhaveEntry N}
    (hq : m.timeoutQueue.contents = .message t e.seqno ihave ::ₘ queue.contents)
    (he : m.ihaves.get ihave.messageId = some e) :
    Yields ({ m with timeoutQueue := queue }.takeIhave ihave)
      (fun m' => m'.Valid ∧ m.waiting = (t, ihave) ::ₘ m'.waiting) := by
  have hpos : e.owners ≠ 0 := by
    have hc := h.owners_eq _ _ he
    simp only [hq, Multiset.countP_cons, QueueItem.owner_message, if_true] at hc
    omega
  simp only [takeIhave, he, orPanic_some, ok_bind, if_neg hpos]
  apply Yields.ok
  refine h.drop_message hq he rfl (Nat.sub_add_cancel (Nat.pos_of_ne_zero hpos)).symm ?_
  split
  next h0 => exact .inr ⟨e.nextExpiryTime, BinaryHeap.contents_push _ _⟩
  next h0 => exact .inl ⟨rfl, h0⟩

/-- What a look at the clock finds in the table: an announcement whose timeout is over, and no
other has an earlier one, or nothing. -/
inductive Popped (clock : Clock) (m m' : MissingMessages N I) : Option (IhaveMessage N I) → Prop
  | expired {t : NodeTime} {ihave : IhaveMessage N I} (ht : t ≤ clock.now)
      (hw : m.waiting = (t, ihave) ::ₘ m'.waiting) (hmin : ∀ a ∈ m.waiting, t ≤ a.1) :
      Popped clock m m' (some ihave)
  | nothing (hw : m'.waiting = m.waiting) (hlate : ∀ a ∈ m.waiting, clock.now < a.1) :
      Popped clock m m' none

lemma Popped.congr {clock : Clock} {m m' k : MissingMessages N I} {r : Option (IhaveMessage N I)}
    (h : Popped clock m m' r) (hw : m.waiting = k.waiting) : Popped clock k m' r := by
  cases h with
  | expired ht he hmin => exact .expired ht (hw ▸ he) (hw ▸ hmin)
  | nothing he hlate => exact .nothing (hw ▸ he) (hw ▸ hlate)

lemma le_of_waiting (hp : m.timeoutQueue.peek QueueItem.expiryTime = some x) :
    ∀ a ∈ m.waiting, x.expiryTime ≤ a.1 := by
  rintro ⟨t, ihave⟩ ha
  obtain ⟨e, _, hi⟩ := mem_waiting.mp ha
  exact (BinaryHeap.peek_mem hp).2 _ hi

/-- What one pass does: it takes no item if none is due, an announcement that waits, or an item
that counts for nothing. -/
inductive Passed (clock : Clock) (m : MissingMessages N I) :
    ℕ × ((Option (IhaveMessage N I) × MissingMessages N I) ⊕ MissingMessages N I) → Prop
  | nothing (hlate : ∀ a ∈ m.waiting, clock.now < a.1) : Passed clock m (0, .inl (none, m))
  | expired {m' : MissingMessages N I} {ihave : IhaveMessage N I}
      (hv : m'.Valid) (hpop : Popped clock m m' (some ihave))
      (hi : m.Inherits m') (hload : m'.load < m.load) :
      Passed clock m (1, .inl (some ihave, m'))
  | leftover {m' : MissingMessages N I} (hv : m'.Valid) (hw : m'.waiting = m.waiting)
      (hi : m.Inherits m') (hload : m'.load < m.load)
      (hlen : m'.timeoutQueue.items.length < m.timeoutQueue.items.length) :
      Passed clock m (1, .inr m')

/-- An announcement leaves at most an item for its entry. -/
lemma load_takeIhave {ihave : IhaveMessage N I} {m' : MissingMessages N I}
    (h : m.takeIhave ihave = .ok m') : m'.load ≤ m.load + 1 := by
  unfold takeIhave at h
  obtain ⟨e, _, h⟩ := bind_eq_ok.mp h
  split_ifs at h with h0
  cases h
  split
  · exact (load_cons (BinaryHeap.contents_push _ _)).trans_le (by simp [QueueItem.isMessage]; omega)
  · exact Nat.le_succ _

variable [DecidableEq N]

lemma popPass_spec (h : m.Valid) (clock : Clock) :
    Yields (m.popPass clock) (Passed clock m) := by
  unfold popPass
  cases hpeek : m.timeoutQueue.peek QueueItem.expiryTime with
  | none =>
    have hnil := BinaryHeap.peek_eq_none.mp hpeek
    have hw : m.waiting = 0 := by simp [waiting, BinaryHeap.contents, hnil]
    exact .ok (.nothing (by simp [hw]))
  | some x =>
    have hle := le_of_waiting hpeek
    by_cases hexp : x.expiryTime ≤ clock.now
    · obtain ⟨queue, hpop, hq⟩ := BinaryHeap.pop_of_peek hpeek
      have hload : m.load = _ + ({ m with timeoutQueue := queue } : MissingMessages N I).load :=
        load_cons hq
      have hless : ({ m with timeoutQueue := queue } : MissingMessages N I).load < m.load := by
        split at hload <;> omega
      have hlen : queue.items.length < m.timeoutQueue.items.length := by
        have hc := congrArg Multiset.card hq
        simp only [BinaryHeap.contents, Multiset.coe_card, Multiset.card_cons] at hc
        omega
      simp only [Option.any_some, hexp, decide_true, if_true, hpop, orPanic_some, ok_bind]
      cases hget : m.ihaves.get x.messageId with
      | none =>
        obtain ⟨hv, hw⟩ := h.drop_stale hq (by simp [hget])
        exact .ok (.leftover hv hw (.of_eq rfl) hless hlen)
      | some e =>
        dsimp only
        split
        next hs =>
          obtain ⟨hv, hw⟩ := h.drop_stale hq (fun e' he' => by
            cases hget.symm.trans he'
            exact hs)
          exact .ok (.leftover hv hw (.of_eq rfl) hless hlen)
        next hs =>
          rw [not_not] at hs
          cases x with
          | message t s ihave =>
            obtain rfl : e.seqno = s := hs
            obtain ⟨m', hm, hv, hw⟩ := h.take hq hget
            have hkeep := load_takeIhave hm
            have hm2 : m'.load < m.load := by
              simp only [QueueItem.isMessage, if_true] at hload
              omega
            dsimp only
            rw [hm]
            exact .ok (.expired hv (.expired hexp hw hle) (takeIhave_inherits hm :) hm2)
          | entry t s i =>
            obtain rfl : e.seqno = s := hs
            obtain ⟨hv, hw⟩ := h.drop_entry hq hget
            refine .ok (.leftover hv hw (inherits_dropIdle i :) ?_ ?_)
            · simpa only [load, queuedMessages, queuedEntries, timeoutQueue_dropIdle] using hless
            · rwa [timeoutQueue_dropIdle]
    · simp only [Option.any_some, hexp, decide_false, Bool.false_eq_true, if_false]
      exact .ok (.nothing fun a ha => (not_le.mp hexp).trans_le (hle a ha))

lemma popExpiredLoop_spec {clock : Clock} {passes : ℕ} (h : m.Valid)
    (hp : m.timeoutQueue.items.length ≤ passes) :
    Yields (popExpiredLoop clock passes m)
      (fun r => r.2.Valid ∧ Popped clock m r.2 r.1 ∧ m.Inherits r.2) := by
  induction passes generalizing m with
  | zero =>
    have hnil : m.timeoutQueue.items = [] := List.length_eq_zero_iff.mp (Nat.le_zero.mp hp)
    have hw : m.waiting = 0 := by simp [waiting, BinaryHeap.contents, hnil]
    exact .ok ⟨h, .nothing rfl (by simp [hw]), .of_eq rfl⟩
  | succ passes ih =>
    rw [popExpiredLoop]
    apply (popPass_spec h clock).bind
    intro r hr
    cases hr with
    | nothing hlate => exact .ok ⟨h, .nothing rfl hlate, .of_eq rfl⟩
    | expired hv hpop hi hload => exact .ok ⟨hv, hpop, hi⟩
    | leftover hv hw hi hload hlen =>
      apply (ih hv (by omega)).mono
      intro r h'
      exact ⟨h'.1, h'.2.1.congr hw, hi.trans h'.2.2⟩

lemma popExpiredLoop_returns (h : m.Valid) (clock : Clock) (passes : ℕ) :
    ∃ r, popExpiredLoop clock passes m = .ok r := by
  induction passes generalizing m with
  | zero => exact ⟨_, rfl⟩
  | succ passes ih =>
    obtain ⟨r, hr, hp⟩ := popPass_spec h clock
    rw [popExpiredLoop, hr]
    cases hp with
    | nothing hlate => exact ⟨_, rfl⟩
    | expired hv hpop hrec hload => exact ⟨_, rfl⟩
    | leftover hv hw hrec hload hlen => exact ih hv

lemma popExpired_spec (h : m.Valid) (clock : Clock) :
    Yields (m.popExpired clock)
      (fun r => r.2.Valid ∧ Popped clock m r.2 r.1 ∧ m.Inherits r.2) :=
  popExpiredLoop_spec h le_rfl

end MissingMessages

end QuicP2p.Plumtree
