import QuicP2p.Plumtree.Message

/-! The table of announced messages that have not arrived, with the timeouts of their
announcements. -/

namespace QuicP2p.Plumtree

open Library

structure IhaveEntry (N : Type) where
  seqno : ℕ
  headRound : Round
  headOwner : N
  owners : ℕ
  nextExpiryTime : NodeTime

inductive QueueItem (N I : Type)
  | message (expiryTime : NodeTime) (entrySeqno : ℕ) (ihave : IhaveMessage N I)
  | entry (expiryTime : NodeTime) (entrySeqno : ℕ) (messageId : I)
  deriving DecidableEq

namespace QueueItem

variable {N I : Type}

def expiryTime : QueueItem N I → NodeTime
  | message t _ _ => t
  | entry t _ _ => t

def entrySeqno : QueueItem N I → ℕ
  | message _ s _ => s
  | entry _ s _ => s

def messageId : QueueItem N I → I
  | message _ _ ihave => ihave.messageId
  | entry _ _ i => i

end QueueItem

structure MissingMessages (N I : Type) where
  timeoutQueue : BinaryHeap (QueueItem N I)
  ihaves : HashMap I (IhaveEntry N)
  entrySeqno : ℕ

namespace MissingMessages

variable {N I : Type}

def new (choices : List ℕ) : MissingMessages N I := ⟨.new choices, .empty, 0⟩

def waitingMessages (m : MissingMessages N I) : ℕ := m.ihaves.len

def nextExpiryTime (m : MissingMessages N I) : Option NodeTime :=
  (m.timeoutQueue.peek QueueItem.expiryTime).map QueueItem.expiryTime

variable [DecidableEq I]

def getIhave (m : MissingMessages N I) (messageId : I) : Option (Round × N) :=
  (m.ihaves.get messageId).map (fun e => (e.headRound, e.headOwner))

def remove (m : MissingMessages N I) (messageId : I) : MissingMessages N I :=
  { m with ihaves := m.ihaves.remove messageId }

/-- The entry that a first announcement makes. -/
def freshEntry (m : MissingMessages N I) (ihave : IhaveMessage N I) (clock : Clock)
    (timeout : Duration) : IhaveEntry N where
  seqno := m.entrySeqno
  headRound := ihave.round
  headOwner := ihave.sender
  owners := 0
  nextExpiryTime := if ihave.realtime then clock.now else clock.now + timeout

def push (m : MissingMessages N I) (ihave : IhaveMessage N I) (clock : Clock)
    (timeout : Duration) : MissingMessages N I :=
  let entry := (m.ihaves.get ihave.messageId).getD (m.freshEntry ihave clock timeout)
  let expiryTime := entry.nextExpiryTime
  let entry :=
    { entry with nextExpiryTime := entry.nextExpiryTime + timeout, owners := entry.owners + 1 }
  { timeoutQueue := m.timeoutQueue.push (.message expiryTime entry.seqno ihave)
    ihaves := m.ihaves.insert ihave.messageId entry
    entrySeqno := if entry.owners = 1 then m.entrySeqno + 1 else m.entrySeqno }

variable [DecidableEq N]

/-- An announcement whose timeout is over leaves its entry. -/
def takeIhave (m : MissingMessages N I) (ihave : IhaveMessage N I) :
    Exec (MissingMessages N I) := do
  let entry ← orPanic (.expect "never fails") (m.ihaves.get ihave.messageId)
  if entry.owners = 0 then .error (.assertion "left != right")
  else
    let entry :=
      { entry with owners := entry.owners - 1, headRound := ihave.round, headOwner := ihave.sender }
    let queue := if entry.owners = 0 then
        m.timeoutQueue.push (.entry entry.nextExpiryTime entry.seqno ihave.messageId)
      else m.timeoutQueue
    .ok { m with ihaves := m.ihaves.insert ihave.messageId entry, timeoutQueue := queue }

def dropIdle (m : MissingMessages N I) (messageId : I) : MissingMessages N I :=
  if (m.ihaves.get messageId).map IhaveEntry.owners = some 0 then m.remove messageId else m

/-- One pass of the loop, with the number of items that it takes from the queue. -/
def popPass (m : MissingMessages N I) (clock : Clock) :
    Exec (ℕ × ((Option (IhaveMessage N I) × MissingMessages N I) ⊕ MissingMessages N I)) :=
  if (m.timeoutQueue.peek QueueItem.expiryTime).any (fun x => x.expiryTime ≤ clock.now) then do
    let (item, queue) ← orPanic (.expect "never fails") (m.timeoutQueue.pop QueueItem.expiryTime)
    let m := { m with timeoutQueue := queue }
    match m.ihaves.get item.messageId with
    | none => .ok (1, .inr m)
    | some entry =>
      if entry.seqno ≠ item.entrySeqno then .ok (1, .inr m)
      else match item with
        | .message _ _ ihave => do
          let m ← m.takeIhave ihave
          .ok (1, .inl (some ihave, m))
        | .entry _ _ messageId => .ok (1, .inr (m.dropIdle messageId))
  else .ok (0, .inl (none, m))

/-- The passes of the loop. Each pass takes an item from the queue, so their number is the length
of the queue. -/
def popExpiredLoop (clock : Clock) :
    ℕ → MissingMessages N I → Exec (Option (IhaveMessage N I) × MissingMessages N I)
  | 0, m => .ok (none, m)
  | passes + 1, m => do
    match (← m.popPass clock).2 with
    | .inl r => .ok r
    | .inr m => popExpiredLoop clock passes m

def popExpired (m : MissingMessages N I) (clock : Clock) :
    Exec (Option (IhaveMessage N I) × MissingMessages N I) :=
  popExpiredLoop clock m.timeoutQueue.items.length m

end MissingMessages

end QuicP2p.Plumtree
