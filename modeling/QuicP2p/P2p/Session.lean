import QuicP2p.P2p.Node
import QuicP2p.Library.Runs

/-! A node as its owner uses it: calls between the polls, and the stages of one poll, between which
messages arrive and the system clock runs on. -/

namespace QuicP2p.P2p

open Library

/-- Where a poll stands, and whether the current pass of its loop has done something. -/
inductive Stage
  | idle
  | hyparview (didSomething : Bool)
  | buffer (didSomething : Bool)
  | plumtree (didSomething : Bool)
  | receive (didSomething : Bool)
  deriving DecidableEq

/-- A node with the stage of its poll, the messages that polls have handed out so far, and those
that executed Deliver actions carried, with the time at which they did. -/
structure Session (K A M R : Type) where
  node : P2PNode K A M R
  stage : Stage
  handedOut : List (PlumtreeAppMessage K A M)
  delivered : List (PlumtreeAppMessage K A M × ℕ)

inductive Input (K A M : Type)
  | join (contactNode : NodeId K A)
  | broadcast (messagePayload : M) (clock : WallClock)
  | leave
  | arrive (message : P2pNodeProtocolMessage K A M)
  /-- A poll begins; the tick interval may be ready. -/
  | poll (tick : Option Draws)
  /-- The poll goes one stage on; the clock is read at most twice. -/
  | advance (receive now : WallClock)
  /-- The iteration order of the hash collections changes. -/
  | reorder (i j : ℕ)
  deriving DecidableEq

def P2PNode.reorder {K A M R : Type} (n : P2PNode K A M R) (i j : ℕ) : P2PNode K A M R :=
  { n with plumtreeNode := n.plumtreeNode.reorder i j }

def P2PNode.arrive {K A M R : Type} (n : P2PNode K A M R) (message : P2pNodeProtocolMessage K A M) :
    P2PNode K A M R :=
  { n with messageRx := n.messageRx ++ [message] }

namespace Session

variable {K A M R : Type}

def new (nodeId : NodeId K A) (rng : R) (draws : Draws) (choices : List ℕ) :
    Exec (Session K A M R) := do
  let node ← P2PNode.new nodeId rng draws choices
  .ok ⟨node, .idle, [], []⟩

lemma new_ok {nodeId : NodeId K A} {rng : R} {draws : Draws} {choices : List ℕ}
    {s : Session K A M R} (h : new nodeId rng draws choices = .ok s) :
    ∃ shuffle syncActiveView fillActiveView,
      s = ⟨{
        hyparviewNode := .withOptions nodeId rng {}
        plumtreeNode := .withOptions nodeId {} choices
        messageSeqno := 0
        messageBuffer := .empty
        processedMessages := []
        server := []
        messageRx := []
        params := {}
        hyparviewShuffleTime := shuffle
        hyparviewSyncActiveViewTime := syncActiveView
        hyparviewFillActiveViewTime := fillActiveView }, .idle, [], []⟩ := by
  obtain ⟨n, hn, h⟩ := bind_eq_ok.mp h
  obtain ⟨_, _, hn⟩ := bind_eq_ok.mp hn
  obtain ⟨_, _, hn⟩ := bind_eq_ok.mp hn
  obtain ⟨_, _, hn⟩ := bind_eq_ok.mp hn
  cases hn
  cases h
  exact ⟨_, _, _, rfl⟩

/-- What a search of the buffer comes to: a poll that finds a message returns it. -/
def found (s : Session K A M R) (stage : Stage) :
    Option (PlumtreeAppMessage K A M) × P2PNode K A M R → Session K A M R
  | (some message, node) =>
    { s with node := node, stage := .idle, handedOut := s.handedOut ++ [message] }
  | (none, node) => { s with node := node, stage := stage }

/-- The message of a Deliver action. -/
def deliverOf (receive : WallClock) :
    PlumtreeAction K A M → List (PlumtreeAppMessage K A M × ℕ)
  | .deliver message => [(message, receive.now)]
  | .send _ _ => []

variable [DecidableEq K] [DecidableEq A]

def advancePlumtree (s : Session K A M R) (didSomething : Bool) (receive now : WallClock) :
    Exec (Session K A M R) := do
  let (action, plumtreeNode) ← s.node.plumtreeNode.pollAction
  let s := { s with node := { s.node with plumtreeNode := plumtreeNode } }
  match action with
  | some action =>
    let r ← s.node.handlePlumtreeAction receive now action
    .ok { s.found (.plumtree true) r with delivered := s.delivered ++ deliverOf receive action }
  | none => .ok { s with stage := .receive didSomething }

variable [Rng R]

def advanceHyparview (s : Session K A M R) (didSomething : Bool) : Exec (Session K A M R) :=
  match s.node.hyparviewNode.pollAction with
  | (some action, hyparviewNode) => do
    let node ← { s.node with hyparviewNode := hyparviewNode }.handleHyparviewAction action
    .ok { s with node := node, stage := .hyparview true }
  | (none, _) => .ok { s with stage := .buffer didSomething }

def advanceReceive (s : Session K A M R) (didSomething : Bool) : Exec (Session K A M R) :=
  match s.node.messageRx with
  | message :: messageRx => do
    let (stop, node) ← { s.node with messageRx := messageRx }.handleP2pnodeProtocolMessage message
    .ok { s with node := node, stage := if stop then .hyparview false else .receive true }
  | [] => .ok { s with stage := if didSomething then .hyparview false else .idle }

def advance (s : Session K A M R) (receive now : WallClock) : Exec (Session K A M R) :=
  match s.stage with
  | .idle => .ok s
  | .hyparview didSomething => s.advanceHyparview didSomething
  | .buffer didSomething => do
    let r ← s.node.processSequentialMessages now
    .ok (s.found (.plumtree didSomething) r)
  | .plumtree didSomething => s.advancePlumtree didSomething receive now
  | .receive didSomething => s.advanceReceive didSomething

/-- The owner calls a node between its polls only. -/
def step (s : Session K A M R) : Input K A M → Exec (Session K A M R)
  | .join contactNode =>
    .ok (if s.stage = .idle then { s with node := s.node.join contactNode } else s)
  | .broadcast messagePayload clock =>
    if s.stage = .idle then do
      let (_, node) ← s.node.broadcast messagePayload clock
      .ok { s with node := node }
    else .ok s
  | .leave => .ok (if s.stage = .idle then { s with node := s.node.leave } else s)
  | .arrive message => .ok { s with node := s.node.arrive message }
  | .poll tick =>
    if s.stage = .idle then do
      let node ← (match tick with
        | some draws => s.node.handleTick draws
        | none => .ok s.node)
      .ok { s with node := node, stage := .hyparview false }
    else .ok s
  | .advance receive now => s.advance receive now
  | .reorder i j => .ok { s with node := s.node.reorder i j }

/-- What one step of a session does. -/
inductive Stepped (s : Session K A M R) : Input K A M → Session K A M R → Prop
  | refused {i : Input K A M} (h : ∀ receive now, i = .advance receive now → s.stage = .idle) :
      Stepped s i s
  | joined {contactNode : NodeId K A} (hs : s.stage = .idle) :
      Stepped s (.join contactNode) { s with node := s.node.join contactNode }
  | broadcast {messagePayload : M} {clock : WallClock} {id : MessageId K A} {n : P2PNode K A M R}
      (hs : s.stage = .idle) (h : s.node.broadcast messagePayload clock = .ok (id, n)) :
      Stepped s (.broadcast messagePayload clock) { s with node := n }
  | left (hs : s.stage = .idle) : Stepped s .leave { s with node := s.node.leave }
  | arrived {message : P2pNodeProtocolMessage K A M} :
      Stepped s (.arrive message) { s with node := s.node.arrive message }
  | polled (hs : s.stage = .idle) : Stepped s (.poll none) { s with stage := .hyparview false }
  | ticked {draws : Draws} {n : P2PNode K A M R} (hs : s.stage = .idle)
      (h : s.node.handleTick draws = .ok n) :
      Stepped s (.poll (some draws)) { s with node := n, stage := .hyparview false }
  | acted {b : Bool} {receive now : WallClock} {a : HyparviewAction K A}
      {rest : List (HyparviewAction K A)} {n : P2PNode K A M R} (hs : s.stage = .hyparview b)
      (ha : s.node.hyparviewNode.actions = a :: rest)
      (h : { s.node with hyparviewNode := { s.node.hyparviewNode with actions := rest }
        }.handleHyparviewAction a = .ok n) :
      Stepped s (.advance receive now) { s with node := n, stage := .hyparview true }
  | drained {b : Bool} {receive now : WallClock} (hs : s.stage = .hyparview b)
      (ha : s.node.hyparviewNode.actions = []) :
      Stepped s (.advance receive now) { s with stage := .buffer b }
  | searched {b : Bool} {receive now : WallClock}
      {r : Option (PlumtreeAppMessage K A M) × P2PNode K A M R} (hs : s.stage = .buffer b)
      (h : s.node.processSequentialMessages now = .ok r) :
      Stepped s (.advance receive now) (s.found (.plumtree b) r)
  | executed {b : Bool} {receive now : WallClock} {a : PlumtreeAction K A M}
      {p : PlumtreeNode K A M} {r : Option (PlumtreeAppMessage K A M) × P2PNode K A M R}
      (hs : s.stage = .plumtree b) (ha : s.node.plumtreeNode.pollAction = .ok (some a, p))
      (h : { s.node with plumtreeNode := p }.handlePlumtreeAction receive now a = .ok r) :
      Stepped s (.advance receive now)
        { s.found (.plumtree true) r with delivered := s.delivered ++ deliverOf receive a }
  | exhausted {b : Bool} {receive now : WallClock} {p : PlumtreeNode K A M}
      (hs : s.stage = .plumtree b) (ha : s.node.plumtreeNode.pollAction = .ok (none, p)) :
      Stepped s (.advance receive now)
        { s with node := { s.node with plumtreeNode := p }, stage := .receive b }
  | received {b stop : Bool} {receive now : WallClock} {m : P2pNodeProtocolMessage K A M}
      {rest : List (P2pNodeProtocolMessage K A M)} {n : P2PNode K A M R}
      (hs : s.stage = .receive b) (hm : s.node.messageRx = m :: rest)
      (h : { s.node with messageRx := rest }.handleP2pnodeProtocolMessage m = .ok (stop, n)) :
      Stepped s (.advance receive now)
        { s with node := n, stage := if stop then .hyparview false else .receive true }
  | ended {b : Bool} {receive now : WallClock} (hs : s.stage = .receive b)
      (hm : s.node.messageRx = []) :
      Stepped s (.advance receive now) { s with stage := if b then .hyparview false else .idle }
  | reordered {i j : ℕ} : Stepped s (.reorder i j) { s with node := s.node.reorder i j }

variable {s t : Session K A M R} {i : Input K A M}

lemma stepped_of_advance {receive now : WallClock} (h : s.advance receive now = .ok t) :
    Stepped s (.advance receive now) t := by
  unfold advance at h
  split at h
  next hs =>
    cases h
    exact .refused fun _ _ _ => hs
  next b hs =>
    simp only [advanceHyparview, Hyparview.Node.pollAction] at h
    cases ha : s.node.hyparviewNode.actions with
    | nil =>
      rw [ha] at h
      cases h
      exact .drained hs ha
    | cons a rest =>
      rw [ha] at h
      obtain ⟨n, hn, h⟩ := bind_eq_ok.mp h
      cases h
      exact .acted hs ha hn
  next b hs =>
    obtain ⟨r, hr, h⟩ := bind_eq_ok.mp h
    cases h
    exact .searched hs hr
  next b hs =>
    obtain ⟨⟨action, p⟩, hp, h⟩ := bind_eq_ok.mp h
    cases action with
    | none =>
      cases h
      exact .exhausted hs hp
    | some a =>
      obtain ⟨r, hr, h⟩ := bind_eq_ok.mp h
      cases h
      exact .executed hs hp hr
  next b hs =>
    unfold advanceReceive at h
    split at h
    next m rest hm =>
      obtain ⟨⟨stop, n⟩, hn, h⟩ := bind_eq_ok.mp h
      cases h
      exact .received hs hm hn
    next hm =>
      cases h
      exact .ended hs hm

lemma stepped_of_step (h : s.step i = .ok t) : Stepped s i t := by
  cases i with
  | join c =>
    simp only [step] at h
    split_ifs at h with hs <;> cases h
    · exact .joined hs
    · exact .refused (by simp)
  | broadcast payload clock =>
    simp only [step] at h
    split_ifs at h with hs
    · obtain ⟨⟨id, n⟩, hn, h⟩ := bind_eq_ok.mp h
      cases h
      exact .broadcast hs hn
    · cases h
      exact .refused (by simp)
  | leave =>
    simp only [step] at h
    split_ifs at h with hs <;> cases h
    · exact .left hs
    · exact .refused (by simp)
  | arrive m =>
    cases h
    exact .arrived
  | poll tick =>
    simp only [step] at h
    split_ifs at h with hs
    · obtain ⟨n, hn, h⟩ := bind_eq_ok.mp h
      cases h
      cases tick with
      | none =>
        cases hn
        exact .polled hs
      | some draws => exact .ticked hs hn
    · cases h
      exact .refused (by simp)
  | advance receive now => exact stepped_of_advance h
  | reorder i j =>
    cases h
    exact .reordered

/-- A session of a node that is alone. -/
def solo : Session ℕ ℕ ℕ Playback where
  node := {
    hyparviewNode := .new ⟨[], 0⟩ ⟨[]⟩
    plumtreeNode := .withOptions ⟨[], 0⟩ {} []
    messageSeqno := 0
    messageBuffer := .empty
    processedMessages := []
    server := []
    messageRx := []
    params := {}
    hyparviewShuffleTime := fromSecs 300
    hyparviewSyncActiveViewTime := fromSecs 60
    hyparviewFillActiveViewTime := fromSecs 30 }
  stage := .idle
  handedOut := []
  delivered := []

lemma new_solo : new ⟨[], 0⟩ ⟨[]⟩ ⟨0, 0, 0⟩ [] = .ok solo := rfl

/-- A poll with its stages, during which the clock stands still. -/
def polled (millis : ℕ) : List (Input ℕ ℕ ℕ) :=
  .poll none :: List.replicate 14 (.advance (some millis) (some millis))

end Session

end QuicP2p.P2p
