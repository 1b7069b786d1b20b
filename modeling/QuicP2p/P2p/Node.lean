import QuicP2p.P2p.Message

/-! The peer-to-peer node: the two protocols, the buffer that orders what is handed out, and the
timers. -/

namespace QuicP2p.P2p

open Library
open Plumtree (Duration NodeTime)

structure P2PNode (K A M R : Type) where
  hyparviewNode : HyparviewNode K A R
  plumtreeNode : PlumtreeNode K A M
  messageSeqno : ℕ
  messageBuffer : BTreeMap (PlumtreeAppMessage K A M × ℕ)
  processedMessages : List ℕ
  server : List (ServerCall K A M)
  messageRx : List (P2pNodeProtocolMessage K A M)
  params : Parameters
  hyparviewShuffleTime : NodeTime
  hyparviewSyncActiveViewTime : NodeTime
  hyparviewFillActiveViewTime : NodeTime

/-- The random numbers that a tick may draw, one for each timer. -/
structure Draws where
  shuffle : ℕ
  syncActiveView : ℕ
  fillActiveView : ℕ
  deriving DecidableEq

namespace P2PNode

variable {K A M R : Type}

def new (nodeId : NodeId K A) (rng : R) (draws : Draws) (choices : List ℕ) :
    Exec (P2PNode K A M R) := do
  let plumtreeNode := Plumtree.Node.withOptions nodeId {} choices
  let now := plumtreeNode.clock.now
  let params : Parameters := {}
  let shuffle ← genInterval params.hyparviewShuffleInterval draws.shuffle
  let syncActiveView ← genInterval params.hyparviewSyncActiveViewInterval draws.syncActiveView
  let fillActiveView ← genInterval params.hyparviewFillActiveViewInterval draws.fillActiveView
  .ok {
    hyparviewNode := Hyparview.Node.new nodeId rng
    plumtreeNode := plumtreeNode
    messageSeqno := 0
    messageBuffer := .empty
    processedMessages := []
    server := []
    messageRx := []
    params := params
    hyparviewShuffleTime := now + shuffle
    hyparviewSyncActiveViewTime := now + syncActiveView
    hyparviewFillActiveViewTime := now + fillActiveView }

def id (n : P2PNode K A M R) : NodeId K A := n.plumtreeNode.id

def call (n : P2PNode K A M R) (c : ServerCall K A M) : P2PNode K A M R :=
  { n with server := n.server ++ [c] }

def join (n : P2PNode K A M R) (contactNode : NodeId K A) : P2PNode K A M R :=
  { n with hyparviewNode := n.hyparviewNode.join contactNode }

def leave (n : P2PNode K A M R) : P2PNode K A M R :=
  n.hyparviewNode.activeView.foldl (fun n peer =>
    (n.call (.sendProtocolMessage peer (.hyparview (.disconnect ⟨n.id, false⟩)))).call
      (.notifySelfDisconnect peer)) n

/-- Drop the oldest of the timestamps that were handed out, if there are too many. -/
def trimProcessedMessages (n : P2PNode K A M R) : P2PNode K A M R :=
  let len := n.processedMessages.length
  if maxProcessedCacheLen < len then
    { n with
      processedMessages :=
        n.processedMessages.drop (min (len - maxProcessedCacheLen) maxCleanupPerCall) }
  else n

/-- Take the message of a timestamp from the buffer. -/
def takeBuffered (n : P2PNode K A M R) (timestamp : ℕ) :
    Option (PlumtreeAppMessage K A M) × P2PNode K A M R :=
  match n.messageBuffer.remove timestamp with
  | (some (message, _), messageBuffer) =>
    (some message, { n with
      messageBuffer := messageBuffer
      processedMessages := n.processedMessages ++ [timestamp] })
  | (none, _) => (none, n)

def cleanupExpiredMessages (n : P2PNode K A M R) (clock : WallClock) :
    Option (PlumtreeAppMessage K A M) × P2PNode K A M R :=
  let n := n.trimProcessedMessages
  match n.messageBuffer.first with
  | some (timestamp, (_, receiveTime)) =>
    if receiveTime ≤ clock.now ∧ maxOutOfOrderDelayMs < clock.now - receiveTime then
      n.takeBuffered timestamp
    else (none, n)
  | none => (none, n)

def processSequentialMessages (n : P2PNode K A M R) (clock : WallClock) :
    Exec (Option (PlumtreeAppMessage K A M) × P2PNode K A M R) :=
  match n.cleanupExpiredMessages clock with
  | (some message, n) => .ok (some message, n)
  | (none, n) =>
    match n.messageBuffer.first with
    | some (timestamp, _) =>
      if n.processedMessages.isEmpty then .ok (none, n)
      else do
        let back ← orPanic (.expect "Never fails") n.processedMessages.getLast?
        if timestamp < back then .ok (none, n)
        else if n.processedMessages.getLast?.all (· ≤ timestamp) then .ok (n.takeBuffered timestamp)
        else .ok (none, n)
    | none => .ok (none, n)

variable [DecidableEq K] [DecidableEq A]

/-- The identifiers are numbered with overflow checks, as in a default build. -/
def broadcast (n : P2PNode K A M R) (messagePayload : M) (clock : WallClock) :
    Exec (MessageId K A × P2PNode K A M R) := do
  let millis ← orPanic (.expect "Time went backwards") clock
  let messageId : MessageId K A := ⟨n.id, n.messageSeqno, asU64 millis⟩
  if n.messageSeqno + 1 < 2 ^ 64 then
    .ok (messageId, { n with
      messageSeqno := n.messageSeqno + 1
      plumtreeNode := n.plumtreeNode.broadcastMessage ⟨messageId, messagePayload⟩ })
  else .error .overflow

/-- The clock is read when the message is put into the buffer, and again when the buffer is
searched. -/
def handlePlumtreeAction (n : P2PNode K A M R) (receive now : WallClock) :
    PlumtreeAction K A M → Exec (Option (PlumtreeAppMessage K A M) × P2PNode K A M R)
  | .send destination message =>
    .ok (none, n.call (.sendProtocolMessageSync destination (.plumtree message)))
  | .deliver message =>
    processSequentialMessages { n with
      messageBuffer := n.messageBuffer.insert message.id.timestamp (message, receive.now) } now

variable [Rng R]

def handleHyparviewAction (n : P2PNode K A M R) :
    HyparviewAction K A → Exec (P2PNode K A M R)
  | .send destination message =>
    .ok (n.call (.sendProtocolMessageSync destination (.hyparview message)))
  | .notify (.neighborUp node) =>
    .ok { n with plumtreeNode := n.plumtreeNode.handleNeighborUp node }
  | .notify (.neighborDown node) => do
    let plumtreeNode ← n.plumtreeNode.handleNeighborDown node
    .ok { n with plumtreeNode := plumtreeNode }
  | .disconnect node => do
    let hyparviewNode ← n.hyparviewNode.disconnect node false
    .ok ({ n with hyparviewNode := hyparviewNode }.call (.removeRemoteNode node.localId))

/-- The result tells whether the message was one of HyParView. -/
def handleP2pnodeProtocolMessage (n : P2PNode K A M R) :
    P2pNodeProtocolMessage K A M → Exec (Bool × P2PNode K A M R)
  | .hyparview m => do
    let hyparviewNode ← n.hyparviewNode.handleProtocolMessage m
    .ok (true, { n with hyparviewNode := hyparviewNode })
  | .plumtree m =>
    .ok (false, { n with plumtreeNode := (n.plumtreeNode.handleProtocolMessage m).2 })
  | .plumtreeStream _ => .error .todo

/-- Run a task of HyParView if its time has come, and set its next time. -/
def whenDue (hyparviewNode : HyparviewNode K A R) (due now : NodeTime)
    (task : HyparviewNode K A R → Exec (HyparviewNode K A R)) (base : Duration) (draw : ℕ) :
    Exec (HyparviewNode K A R × NodeTime) :=
  if due ≤ now then do
    let hyparviewNode ← task hyparviewNode
    let interval ← genInterval base draw
    .ok (hyparviewNode, now + interval)
  else .ok (hyparviewNode, due)

def handleTick (n : P2PNode K A M R) (draws : Draws) : Exec (P2PNode K A M R) := do
  let plumtreeNode := n.plumtreeNode.tick n.params.tickInterval
  let now := plumtreeNode.clock.now
  let (hyparviewNode, shuffleTime) ← whenDue n.hyparviewNode n.hyparviewShuffleTime now
    Hyparview.Node.shufflePassiveView n.params.hyparviewShuffleInterval draws.shuffle
  let (hyparviewNode, syncActiveViewTime) ← whenDue hyparviewNode n.hyparviewSyncActiveViewTime now
    (fun h => .ok h.syncActiveView) n.params.hyparviewSyncActiveViewInterval draws.syncActiveView
  let (hyparviewNode, fillActiveViewTime) ← whenDue hyparviewNode n.hyparviewFillActiveViewTime now
    Hyparview.Node.fillActiveView n.params.hyparviewFillActiveViewInterval draws.fillActiveView
  .ok { n with
    plumtreeNode := plumtreeNode
    hyparviewNode := hyparviewNode
    hyparviewShuffleTime := shuffleTime
    hyparviewSyncActiveViewTime := syncActiveViewTime
    hyparviewFillActiveViewTime := fillActiveViewTime }

variable {n m : P2PNode K A M R}

omit [DecidableEq K] [DecidableEq A] [Rng R] in
lemma leave_eq (n : P2PNode K A M R) : n.leave = { n with
    server := n.server ++ n.hyparviewNode.activeView.flatMap (fun peer =>
      [.sendProtocolMessage peer (.hyparview (.disconnect ⟨n.id, false⟩)),
        .notifySelfDisconnect peer]) } := by
  have hloop : ∀ (peers : List (NodeId K A)) (m : P2PNode K A M R), m.id = n.id →
      peers.foldl (fun n peer =>
        (n.call (.sendProtocolMessage peer (.hyparview (.disconnect ⟨n.id, false⟩)))).call
          (.notifySelfDisconnect peer)) m = { m with
        server := m.server ++ peers.flatMap (fun peer =>
          [.sendProtocolMessage peer (.hyparview (.disconnect ⟨n.id, false⟩)),
            .notifySelfDisconnect peer]) } := by
    intro peers m hm
    induction peers generalizing m with
    | nil => simp
    | cons x peers ih =>
      rw [List.foldl_cons, ih ((m.call _).call _) hm]
      simp [call, hm]
  exact hloop _ n rfl

omit [Rng R] in
lemma broadcast_ok {payload : M} {clock : WallClock} {id : MessageId K A}
    (h : n.broadcast payload clock = .ok (id, m)) : ∃ millis, clock = some millis ∧
      id = ⟨n.id, n.messageSeqno, asU64 millis⟩ ∧ m = { n with
        messageSeqno := n.messageSeqno + 1
        plumtreeNode := n.plumtreeNode.broadcastMessage ⟨id, payload⟩ } := by
  cases clock with
  | none => cases h
  | some millis =>
    simp only [broadcast, orPanic_some, ok_bind] at h
    split_ifs at h
    cases h
    exact ⟨millis, rfl, rfl, rfl⟩

omit [DecidableEq K] [DecidableEq A] in
lemma handleTick_ok {draws : Draws} (h : n.handleTick draws = .ok m) :
    ∃ (h₁ h₂ h₃ : HyparviewNode K A R) (t₁ t₂ t₃ : NodeTime),
      whenDue n.hyparviewNode n.hyparviewShuffleTime
        (n.plumtreeNode.tick n.params.tickInterval).clock.now Hyparview.Node.shufflePassiveView
        n.params.hyparviewShuffleInterval draws.shuffle = .ok (h₁, t₁) ∧
      whenDue h₁ n.hyparviewSyncActiveViewTime
        (n.plumtreeNode.tick n.params.tickInterval).clock.now (fun h => .ok h.syncActiveView)
        n.params.hyparviewSyncActiveViewInterval draws.syncActiveView = .ok (h₂, t₂) ∧
      whenDue h₂ n.hyparviewFillActiveViewTime
        (n.plumtreeNode.tick n.params.tickInterval).clock.now Hyparview.Node.fillActiveView
        n.params.hyparviewFillActiveViewInterval draws.fillActiveView = .ok (h₃, t₃) ∧
      m = { n with
        plumtreeNode := n.plumtreeNode.tick n.params.tickInterval
        hyparviewNode := h₃
        hyparviewShuffleTime := t₁
        hyparviewSyncActiveViewTime := t₂
        hyparviewFillActiveViewTime := t₃ } := by
  obtain ⟨⟨h₁, t₁⟩, hs, h⟩ := bind_eq_ok.mp h
  obtain ⟨⟨h₂, t₂⟩, hy, h⟩ := bind_eq_ok.mp h
  obtain ⟨⟨h₃, t₃⟩, hf, h⟩ := bind_eq_ok.mp h
  cases h
  exact ⟨h₁, h₂, h₃, t₁, t₂, t₃, hs, hy, hf, rfl⟩

omit [DecidableEq K] [DecidableEq A] [Rng R] in
lemma whenDue_ok {hv hv' : HyparviewNode K A R} {due now t : NodeTime} {base : Duration} {draw : ℕ}
    {task : HyparviewNode K A R → Exec (HyparviewNode K A R)}
    (h : whenDue hv due now task base draw = .ok (hv', t)) : hv' = hv ∨ task hv = .ok hv' := by
  unfold whenDue at h
  split_ifs at h
  · obtain ⟨k, hk, h⟩ := bind_eq_ok.mp h
    obtain ⟨_, _, h⟩ := bind_eq_ok.mp h
    cases h
    exact .inr hk
  · cases h
    exact .inl rfl

end P2PNode

end QuicP2p.P2p
