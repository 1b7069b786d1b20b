import QuicP2p.Plumtree.Waiting

/-! The Plumtree node, operation by operation. -/

namespace QuicP2p.Plumtree

open Library

structure Node (N I P : Type) where
  id : N
  options : NodeOptions
  eagerPushPeers : HashSet N
  lazyPushPeers : HashSet N
  messages : HashMap I P
  missings : MissingMessages N I
  actions : List (Action N I P)
  clock : Clock

namespace Node

variable {N I P : Type}

def withOptions (nodeId : N) (options : NodeOptions) (choices : List ℕ) : Node N I P where
  id := nodeId
  options := options
  eagerPushPeers := .empty
  lazyPushPeers := .empty
  messages := .empty
  missings := .new choices
  actions := []
  clock := .new

def new (nodeId : N) (choices : List ℕ) : Node N I P := withOptions nodeId {} choices

def pushBack (n : Node N I P) (a : Action N I P) : Node N I P :=
  { n with actions := n.actions ++ [a] }

def send (n : Node N I P) (destination : N) (message : ProtocolMessage N I P) : Node N I P :=
  n.pushBack (.send destination message)

/-- A loop that sends one message to each node of a list. -/
def sendEach (n : Node N I P) (destinations : List N) (message : ProtocolMessage N I P) :
    Node N I P :=
  destinations.foldl (fun n d => n.send d message) n

def deliver (n : Node N I P) (message : Message I P) : Node N I P := n.pushBack (.deliver message)

def waitingMessages (n : Node N I P) : ℕ := n.missings.waitingMessages

def nextExpiryTime (n : Node N I P) : Option NodeTime := n.missings.nextExpiryTime

def tick (n : Node N I P) (duration : Duration) : Node N I P :=
  { n with clock := n.clock.tick duration }

variable [DecidableEq N]

def isKnownNode (n : Node N I P) (nodeId : N) : Bool :=
  nodeId ∈ n.eagerPushPeers ∨ nodeId ∈ n.lazyPushPeers

/-- Move a peer to the eager ones. -/
def toEager (n : Node N I P) (peer : N) : Node N I P :=
  { n with
    eagerPushPeers := n.eagerPushPeers.insert peer
    lazyPushPeers := n.lazyPushPeers.remove peer }

/-- Move a peer to the lazy ones. -/
def toLazy (n : Node N I P) (peer : N) : Node N I P :=
  { n with
    eagerPushPeers := n.eagerPushPeers.remove peer
    lazyPushPeers := n.lazyPushPeers.insert peer }

def dropPeer (n : Node N I P) (peer : N) : Node N I P :=
  { n with
    eagerPushPeers := n.eagerPushPeers.remove peer
    lazyPushPeers := n.lazyPushPeers.remove peer }

def eagerPush (n : Node N I P) (gossip : GossipMessage N I P) : Node N I P :=
  n.sendEach (n.eagerPushPeers.toList.filter (fun x => x ≠ gossip.sender))
    (.gossip ⟨n.id, gossip.message, gossip.round.saturatingAdd 1⟩)

def lazyPush (n : Node N I P) (gossip : GossipMessage N I P) : Node N I P :=
  n.sendEach (n.lazyPushPeers.toList.filter (fun x => x ≠ gossip.sender))
    (.ihave ⟨n.id, gossip.message.id, gossip.round.saturatingAdd 1, true⟩)

def handlePrune (n : Node N I P) (prune : PruneMessage N) : Node N I P := n.toLazy prune.sender

def sendGraft (n : Node N I P) (ihave : IhaveMessage N I) : Bool × Node N I P :=
  if n.isKnownNode ihave.sender then
    (true, (n.toEager ihave.sender).send ihave.sender
      (.graft ⟨n.id, some ihave.messageId, ihave.round⟩))
  else (false, n)

variable [DecidableEq I]

def broadcastMessage (n : Node N I P) (message : Message I P) : Node N I P :=
  let gossip : GossipMessage N I P := ⟨n.id, message, 0⟩
  let n := ((n.deliver message).eagerPush gossip).lazyPush gossip
  { n with messages := n.messages.insert message.id message.payload }

def forgetMessage (n : Node N I P) (messageId : I) : Bool × Node N I P :=
  ((n.messages.get messageId).isSome, { n with messages := n.messages.remove messageId })

def handleNeighborUp (n : Node N I P) (neighborNodeId : N) : Node N I P :=
  if n.isKnownNode neighborNodeId ∨ n.id = neighborNodeId then n
  else
    let n := n.messages.keys.foldl
      (fun n i => n.send neighborNodeId (.ihave ⟨n.id, i, 0, false⟩)) n
    { n with eagerPushPeers := n.eagerPushPeers.insert neighborNodeId }

def optimize (n : Node N I P) (gossip : GossipMessage N I P) : Node N I P :=
  match n.missings.getIhave gossip.message.id with
  | some (ihaveRound, ihaveOwner) =>
    if (gossip.round.checkedSub ihaveRound).any (n.options.optimizationThreshold ≤ ·) then
      (n.send ihaveOwner (.graft ⟨n.id, none, ihaveRound⟩)).send gossip.sender (.prune ⟨n.id⟩)
    else n
  | none => n

def handleGossip (n : Node N I P) (gossip : GossipMessage N I P) : Node N I P :=
  if n.messages.containsKey gossip.message.id then
    (n.toLazy gossip.sender).send gossip.sender (.prune ⟨n.id⟩)
  else
    let n := ((n.deliver gossip.message).eagerPush gossip).lazyPush gossip
    let n := (n.toEager gossip.sender).optimize gossip
    { n with
      missings := n.missings.remove gossip.message.id
      messages := n.messages.insert gossip.message.id gossip.message.payload }

def handleIhave (n : Node N I P) (ihave : IhaveMessage N I) : Node N I P :=
  if n.messages.containsKey ihave.messageId then n
  else
    let ihave := if n.eagerPushPeers.isEmpty then { ihave with realtime := true } else ihave
    { n with missings := n.missings.push ihave n.clock n.options.ihaveTimeout }

def handleGraft (n : Node N I P) (graft : GraftMessage N I) : Node N I P :=
  let n := n.toEager graft.sender
  match graft.messageId with
  | some messageId =>
    match n.messages.get messageId with
    | some payload => n.send graft.sender (.gossip ⟨n.id, ⟨messageId, payload⟩, graft.round⟩)
    | none => n
  | none => n

def handleProtocolMessage (n : Node N I P) (message : ProtocolMessage N I P) :
    Bool × Node N I P :=
  if n.isKnownNode message.sender then
    match message with
    | .gossip m => (true, n.handleGossip m)
    | .ihave m => (true, n.handleIhave m)
    | .graft m => (true, n.handleGraft m)
    | .prune m => (true, n.handlePrune m)
  else (false, n)

def popExpired (n : Node N I P) (clock : Clock) :
    Exec (Option (IhaveMessage N I) × Node N I P) := do
  let (ihave, missings) ← n.missings.popExpired clock
  .ok (ihave, { n with missings := missings })

/-- Each pass of the loop takes an announcement from the queue, so the length of the queue bounds
their number. -/
def handleExpirationLoop : ℕ → Node N I P → Exec (Node N I P)
  | 0, _ => .error .loopBound
  | passes + 1, n => do
    let (ihave, n) ← n.popExpired n.clock
    match ihave with
    | some ihave => handleExpirationLoop passes (n.sendGraft ihave).2
    | none => .ok n

def handleExpiration (n : Node N I P) : Exec (Node N I P) :=
  handleExpirationLoop (n.missings.timeoutQueue.items.length + 1) n

def graftLoop : ℕ → Node N I P → Exec (Node N I P)
  | 0, _ => .error .loopBound
  | passes + 1, n => do
    let (ihave, n) ← n.popExpired .max
    match ihave with
    | some ihave =>
      let (sent, n) := n.sendGraft ihave
      if sent then .ok n else graftLoop passes n
    | none => .ok n

def handleNeighborDown (n : Node N I P) (neighborNodeId : N) : Exec (Node N I P) :=
  if n.isKnownNode neighborNodeId then
    let n := n.dropPeer neighborNodeId
    if n.eagerPushPeers.isEmpty then graftLoop (n.missings.timeoutQueue.items.length + 1) n
    else .ok n
  else .ok n

def pollAction (n : Node N I P) : Exec (Option (Action N I P) × Node N I P) := do
  let n ← n.handleExpiration
  .ok (n.actions.head?, { n with actions := n.actions.tail })

def optionsMut (n : Node N I P) (options : NodeOptions) : Node N I P :=
  { n with options := options }

/-- Exchange two places of each of the collections that are iterated. -/
def reorder (n : Node N I P) (i j : ℕ) : Node N I P :=
  { n with
    eagerPushPeers := n.eagerPushPeers.reorder i j
    lazyPushPeers := n.lazyPushPeers.reorder i j
    messages := n.messages.reorder i j }

end Node

end QuicP2p.Plumtree
