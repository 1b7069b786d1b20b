import QuicP2p.Library.Agenda
import QuicP2p.Library.Runs
import QuicP2p.Plumtree.Waiting

/-! The table of missing messages on its own, under any operations in any order. -/

namespace QuicP2p.Plumtree

open Library

variable {N I : Type} [DecidableEq N] [DecidableEq I]

inductive TableOp (N I : Type)
  | push (ihave : IhaveMessage N I) (clock : Clock) (timeout : Duration)
  | popExpired (clock : Clock)
  | remove (messageId : I)
  deriving DecidableEq

namespace MissingMessages

def operate (m : MissingMessages N I) : TableOp N I → Exec (MissingMessages N I)
  | .push ihave clock timeout => .ok (m.push ihave clock timeout)
  | .popExpired clock => do
    let (_, m) ← m.popExpired clock
    .ok m
  | .remove messageId => .ok (m.remove messageId)

/-- What `pop_expired` returns. -/
def found (m : MissingMessages N I) (clock : Clock) : Option (IhaveMessage N I) :=
  (m.popExpired clock).toOption.bind Prod.fst

/-- What an operation does to the agenda of announcements. -/
def event (m : MissingMessages N I) :
    TableOp N I → Agenda.Event NodeTime I (IhaveMessage N I)
  | .push ihave clock timeout => .add (m.dueTime ihave clock timeout) ihave
  | .popExpired clock => .take clock.now (m.found clock)
  | .remove messageId => .cancel messageId

/-- What the operations of a run did to the agenda of announcements. -/
def events (tr : List (Taken (MissingMessages N I) (TableOp N I))) :
    List (Agenda.Event NodeTime I (IhaveMessage N I)) :=
  tr.map (fun e => e.before.event e.input)

variable {m m' : MissingMessages N I} {op : TableOp N I} {choices : List ℕ}
  {tr : List (Taken (MissingMessages N I) (TableOp N I))}

omit [DecidableEq N] in
lemma Popped.step {clock : Clock} {r : Option (IhaveMessage N I)} (h : Popped clock m m' r) :
    Agenda.Step IhaveMessage.messageId m.waiting (.take clock.now r) m'.waiting := by
  cases h with
  | expired ht hw hmin => exact .take ht hw hmin
  | nothing hw hlate =>
    rw [hw]
    exact .idle hlate

lemma popExpired_step (h : m.Valid) (clock : Clock) :
    ∃ r, m.popExpired clock = .ok r ∧ r.2.Valid ∧
      Agenda.Step IhaveMessage.messageId m.waiting (.take clock.now r.1) r.2.waiting := by
  obtain ⟨r, hr, hv, hp, _⟩ := popExpired_spec h clock
  exact ⟨r, hr, hv, hp.step⟩

lemma operate_step (h : m.Valid) (hs : m.operate op = .ok m') :
    m'.Valid ∧
      Agenda.Step IhaveMessage.messageId m.waiting (m.event op) m'.waiting := by
  cases op with
  | push ihave clock timeout =>
    cases hs
    obtain ⟨hv, hw⟩ := push_spec h ihave clock timeout
    rw [hw]
    exact ⟨hv, .add _ _⟩
  | popExpired clock =>
    obtain ⟨r, hr, hv, hstep⟩ := popExpired_step h clock
    have hfound : m.found clock = r.1 := by
      rw [found, hr]
      rfl
    rw [operate, hr] at hs
    cases hs
    rw [event, hfound]
    exact ⟨hv, hstep⟩
  | remove i =>
    cases hs
    obtain ⟨hv, hw⟩ := remove_spec h i
    rw [hw]
    exact ⟨hv, .cancel i⟩

lemma run_spec (h : Run operate (new choices) tr m) :
    m.Valid ∧ Agenda.After IhaveMessage.messageId (events tr) m.waiting := by
  apply h.history (P := fun tr m =>
    m.Valid ∧ Agenda.After IhaveMessage.messageId (events tr) m.waiting)
  · rintro tr m op m' ⟨hv, ha⟩ hs
    obtain ⟨hv', hstep⟩ := operate_step hv hs
    rw [events, List.map_append]
    exact ⟨hv', .next ha hstep⟩
  · exact ⟨new_valid choices, .start⟩

/-- The table refines an agenda: after every run it stands for the agenda of the announcements
pushed, not yet returned and not removed since. It gives out the earliest announcement that is
due, and one that was removed never comes back. -/
theorem agenda_refined (h : Run operate (new choices) tr m) :
    (∀ s, Agenda.After IhaveMessage.messageId (events tr) s ↔ s = m.waiting) ∧
    (∀ clock, ∃ r, m.popExpired clock = .ok r ∧
      Agenda.Step IhaveMessage.messageId m.waiting (.take clock.now r.1) r.2.waiting ∧
      (r.1 = none ↔ ∀ a ∈ m.waiting, clock.now < a.1)) ∧
    ∀ pre e post i, tr = pre ++ e :: post → e.input = .remove i →
      (Agenda.taken (events post) + m.waiting.map Prod.snd).filter (fun a => a.messageId = i) ≤
        Agenda.added (events post) := by
  obtain ⟨hv, ha⟩ := run_spec h
  refine ⟨fun s => ⟨fun hs => hs.unique ha, fun hs => hs ▸ ha⟩, fun clock => ?_, ?_⟩
  · obtain ⟨r, hr, _, hstep⟩ := popExpired_step hv clock
    exact ⟨r, hr, hstep, hstep.none_iff⟩
  · rintro pre e post i rfl hi
    rw [events, List.map_append, List.map_cons, hi] at ha
    exact ha.cancelled

/-- An announcement is removed, and another of its message pushed later. -/
def announcedAgain : List (TableOp ℕ ℕ) :=
  [.push ⟨1, 7, 0, false⟩ ⟨0⟩ 500, .remove 7, .push ⟨2, 7, 3, false⟩ ⟨100⟩ 500]

theorem agenda_refined_again : ∃ (m : MissingMessages ℕ ℕ)
    (tr : List (Taken (MissingMessages ℕ ℕ) (TableOp ℕ ℕ))), Run operate (new []) tr m ∧
      m.timeoutQueue.items.length = 2 ∧
      Agenda.After IhaveMessage.messageId (events tr) {(600, ⟨2, 7, 3, false⟩)} ∧
      (∃ r, m.popExpired ⟨500⟩ = .ok r ∧ r.1 = none) ∧
      ∃ r, m.popExpired ⟨600⟩ = .ok r ∧ r.1 = some ⟨2, 7, 3, false⟩ := by
  have hrun : follow operate (new []) announcedAgain = .ok _ := rfl
  obtain ⟨hafter, hpop, _⟩ := agenda_refined (Run.of_follow announcedAgain hrun)
  obtain ⟨r, hr, _, hnone⟩ := hpop ⟨500⟩
  refine ⟨_, _, Run.of_follow _ hrun, rfl, (hafter _).mpr rfl, ⟨r, hr, hnone.mpr ?_⟩, _, rfl, rfl⟩
  decide

/-- Every entry counts the announcements that it owns in the queue, and has an item to end it once
it owns none. So no pass of `pop_expired` fails, and an empty queue leaves no entry. -/
theorem owners_exact (h : Run operate (new choices) tr m) :
    (∀ i e, m.ihaves.get i = some e →
      e.owners = m.timeoutQueue.contents.countP
        (fun x => x.isMessage = true ∧ x.messageId = i ∧ x.entrySeqno = e.seqno) ∧
      (e.owners = 0 → ∃ t, .entry t e.seqno i ∈ m.timeoutQueue.contents)) ∧
    (∀ clock passes, ∃ r, popExpiredLoop clock passes m = .ok r) ∧
    (∀ clock, ∃ r, m.popExpired clock = .ok r) ∧
    (m.timeoutQueue.items = [] → m.waitingMessages = 0) := by
  have hv := (run_spec h).1
  refine ⟨fun i e he => ⟨?_, hv.idle i e he⟩, popExpiredLoop_returns hv,
    fun clock => popExpiredLoop_returns hv clock _, fun hnil => ?_⟩
  · simp only [hv.owners_eq i e he, QueueItem.owner_eq_iff]
  · have hempty : m.timeoutQueue.contents = 0 := congrArg Multiset.ofList hnil
    apply HashMap.len_eq_zero.mpr
    intro i
    apply Option.eq_none_iff_forall_ne_some.mpr
    intro e he
    have hzero : e.owners = 0 := by rw [hv.owners_eq i e he, hempty, Multiset.countP_zero]
    obtain ⟨t, ht⟩ := hv.idle i e he hzero
    rw [hempty] at ht
    exact Multiset.notMem_zero _ ht

/-- The entry of two announcements, of which one is returned, and then the other. -/
def returnedTwice : List (TableOp ℕ ℕ) :=
  [.push ⟨1, 7, 0, false⟩ ⟨0⟩ 500, .push ⟨2, 7, 3, false⟩ ⟨100⟩ 500, .popExpired ⟨500⟩,
    .popExpired ⟨1000⟩]

theorem owners_exact_returned : ∃ (m : MissingMessages ℕ ℕ)
    (tr : List (Taken (MissingMessages ℕ ℕ) (TableOp ℕ ℕ))), Run operate (new []) tr m ∧
      m.waitingMessages = 1 ∧ m.waiting = 0 ∧
      (∃ t s, .entry t s 7 ∈ m.timeoutQueue.contents) ∧ ∃ r, m.popExpired ⟨1500⟩ = .ok r := by
  have hrun : follow operate (new []) returnedTwice = .ok _ := rfl
  obtain ⟨hentries, _, hpop, _⟩ := owners_exact (Run.of_follow returnedTwice hrun)
  obtain ⟨_, hidle⟩ := hentries 7 _ rfl
  obtain ⟨t, ht⟩ := hidle rfl
  exact ⟨_, _, Run.of_follow _ hrun, rfl, rfl, ⟨t, _, ht⟩, hpop _⟩

end MissingMessages

end QuicP2p.Plumtree
