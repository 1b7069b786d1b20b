import QuicP2p.Hyparview.Message

/-! The HyParView node, operation by operation. -/

namespace QuicP2p.Hyparview

open Library

structure Node (T R : Type) where
  id : T
  actions : List (Action T)
  activeView : List T
  passiveView : List T
  rng : R
  options : NodeOptions

namespace Node

variable {T R : Type}

def withOptions (nodeId : T) (rng : R) (options : NodeOptions) : Node T R where
  id := nodeId
  actions := []
  activeView := []
  passiveView := []
  rng := rng
  options := options

def new (nodeId : T) (rng : R) : Node T R := withOptions nodeId rng {}

def pushBack (n : Node T R) (a : Action T) : Node T R := { n with actions := n.actions ++ [a] }

def send (n : Node T R) (destination : T) (message : ProtocolMessage T) : Node T R :=
  n.pushBack (.send destination message)

/-- A loop that sends one message to each node of a list. -/
def sendEach (n : Node T R) (destinations : List T) (message : ProtocolMessage T) : Node T R :=
  destinations.foldl (fun n d => n.send d message) n

def pollAction (n : Node T R) : Option (Action T) × Node T R :=
  (n.actions.head?, { n with actions := n.actions.tail })

def join (n : Node T R) (contactNodeId : T) : Node T R :=
  n.send contactNodeId (.join ⟨n.id⟩)

def isActiveViewFull (n : Node T R) : Bool :=
  n.options.maxActiveViewSize.toNat ≤ n.activeView.length

def isPassiveViewFull (n : Node T R) : Bool :=
  n.options.maxPassiveViewSize.toNat ≤ n.passiveView.length

variable [Rng R]

def randomRange (n : Node T R) (k : ℕ) : Exec (ℕ × Node T R) :=
  if k = 0 then .error .emptyRange
  else .ok ((Rng.randomRange k n.rng).1, { n with rng := (Rng.randomRange k n.rng).2 })

def shufflePassive (n : Node T R) : Node T R :=
  { n with
    passiveView := (Rng.shuffle n.passiveView n.rng).1
    rng := (Rng.shuffle n.passiveView n.rng).2 }

def shuffleActive (n : Node T R) : Node T R :=
  { n with
    activeView := (Rng.shuffle n.activeView n.rng).1
    rng := (Rng.shuffle n.activeView n.rng).2 }

def selectRandomFromActiveView (n : Node T R) : Exec (Option T × Node T R) :=
  if n.activeView.isEmpty then .ok (none, n)
  else do
    let (i, n) ← n.randomRange n.activeView.length
    let x ← orPanic .indexOutOfBounds n.activeView[i]?
    .ok (some x, n)

def selectRandomFromPassiveView (n : Node T R) : Exec (Option T × Node T R) :=
  if n.passiveView.isEmpty then .ok (none, n)
  else do
    let (i, n) ← n.randomRange n.passiveView.length
    let x ← orPanic .indexOutOfBounds n.passiveView[i]?
    .ok (some x, n)

def removeRandomFromPassiveViewIfFull (n : Node T R) : Exec (Node T R) :=
  if n.isPassiveViewFull then do
    let (i, n) ← n.randomRange n.passiveView.length
    let (_, view) ← orPanic .indexOutOfBounds (swapRemove n.passiveView i)
    .ok { n with passiveView := view }
  else .ok n

variable [DecidableEq T]

def removeFromPassiveView (n : Node T R) (node : T) : Exec (Node T R) :=
  match n.passiveView.idxOf? node with
  | some i => do
    let (_, view) ← orPanic .indexOutOfBounds (swapRemove n.passiveView i)
    .ok { n with passiveView := view }
  | none => .ok n

def addToPassiveView (n : Node T R) (node : T) : Exec (Node T R) :=
  if node ∈ n.activeView ∨ node ∈ n.passiveView ∨ node = n.id then .ok n
  else do
    let n ← n.removeRandomFromPassiveViewIfFull
    .ok { n with passiveView := n.passiveView ++ [node] }

def addShuffledNodesToPassiveView (n : Node T R) (nodes : List T) : Exec (Node T R) :=
  nodes.foldlM (fun n node => n.addToPassiveView node) n

def removeFromActiveViewByIndex (n : Node T R) (i : ℕ) (alive : Bool) : Exec (Node T R) := do
  let (node, view) ← orPanic .indexOutOfBounds (swapRemove n.activeView i)
  let n := { n with activeView := view }
  let n := if alive then n.send node (.disconnect ⟨n.id, true⟩) else n
  let n := n.pushBack (.disconnect node)
  let n := n.pushBack (.notify (.neighborDown node))
  n.addToPassiveView node

def removeFromActiveView (n : Node T R) (m : DisconnectMessage T) : Exec (Bool × Node T R) :=
  match n.activeView.idxOf? m.sender with
  | some i => do
    let n ← n.removeFromActiveViewByIndex i m.alive
    .ok (true, n)
  | none => .ok (false, n)

def removeRandomFromActiveViewIfFull (n : Node T R) : Exec (Node T R) :=
  if n.isActiveViewFull then do
    let (i, n) ← n.randomRange n.activeView.length
    n.removeFromActiveViewByIndex i true
  else .ok n

def addToActiveView (n : Node T R) (node : T) (highPriority : Bool) : Exec (Node T R) :=
  if node ∈ n.activeView ∨ node = n.id then .ok n
  else do
    let n ← n.removeRandomFromActiveViewIfFull
    let n ← n.removeFromPassiveView node
    let n := { n with activeView := n.activeView ++ [node] }
    let n := n.send node (.neighbor ⟨n.id, highPriority⟩)
    .ok (n.pushBack (.notify (.neighborUp node)))

def disconnectUnlessActiveViewNode (n : Node T R) (node : T) : Node T R :=
  if node ∉ n.activeView ∧ n.id ≠ node then
    (n.send node (.disconnect ⟨n.id, true⟩)).pushBack (.disconnect node)
  else n

/-- The passes of the partition loop. Each pass brings `i` and `tail` one step closer, so the
number of passes left is the distance between them. -/
def partitionLoop (excludes : List T) : ℕ → List T → ℕ → ℕ → Exec (List T × ℕ)
  | 0, view, _, tail => .ok (view, tail)
  | passes + 1, view, i, tail =>
    if i < tail ∧ tail ≠ 0 then do
      let x ← orPanic .indexOutOfBounds view[i]?
      if x ∈ excludes then do
        let view ← orPanic .indexOutOfBounds (swap view i (tail - 1))
        partitionLoop excludes passes view i (tail - 1)
      else partitionLoop excludes passes view (i + 1) tail
    else .ok (view, tail)

def selectForwardingDestination (n : Node T R) (excludes : List T) :
    Exec (Option T × Node T R) := do
  let (view, tail) ← partitionLoop excludes n.activeView.length n.activeView 0 n.activeView.length
  let n := { n with activeView := view }
  if tail = 0 then .ok (none, n)
  else do
    let (i, n) ← n.randomRange tail
    let x ← orPanic .indexOutOfBounds n.activeView[i]?
    .ok (some x, n)

def shufflePassiveView (n : Node T R) : Exec (Node T R) := do
  let (selected, n) ← n.selectRandomFromActiveView
  match selected with
  | some node =>
    let n := n.shufflePassive.shuffleActive
    let nodes := n.passiveView.take n.options.shufflePassiveViewSize.toNat ++
      n.activeView.take n.options.shuffleActiveViewSize.toNat ++ [n.id]
    let ttl := TimeToLive.new n.options.activeRandomWalkLen
    .ok (n.send node (.shuffle ⟨n.id, n.id, nodes, ttl⟩))
  | none => .ok n

def fillActiveView (n : Node T R) : Exec (Node T R) :=
  if n.isActiveViewFull then .ok n
  else do
    let (selected, n) ← n.selectRandomFromPassiveView
    match selected with
    | some node => .ok (n.send node (.neighbor ⟨n.id, n.activeView.isEmpty⟩))
    | none => .ok n

def syncActiveView (n : Node T R) : Node T R :=
  n.sendEach n.activeView (.neighbor ⟨n.id, false⟩)

def handleJoin (n : Node T R) (m : JoinMessage T) : Exec (Node T R) := do
  let n ← n.addToActiveView m.sender true
  let ttl := TimeToLive.new n.options.activeRandomWalkLen
  .ok (n.sendEach (n.activeView.filter (fun x => x ≠ m.sender))
    (.forwardJoin ⟨n.id, m.sender, ttl⟩))

def handleForwardJoin (n : Node T R) (m : ForwardJoinMessage T) : Exec (Node T R) :=
  if m.ttl.isExpired ∨ n.activeView.isEmpty then n.addToActiveView m.newNode true
  else do
    let n ← (if m.ttl.asU8 = n.options.passiveRandomWalkLen then n.addToPassiveView m.newNode
      else .ok n)
    let (next, n) ← n.selectForwardingDestination [m.sender]
    match next with
    | some next => .ok (n.send next (.forwardJoin ⟨n.id, m.newNode, m.ttl.decrement⟩))
    | none => n.addToActiveView m.newNode true

def handleNeighbor (n : Node T R) (m : NeighborMessage T) : Exec (Node T R) :=
  if m.highPriority ∨ ¬ n.isActiveViewFull then n.addToActiveView m.sender false else .ok n

def handleShuffle (n : Node T R) (m : ShuffleMessage T) : Exec (Node T R) :=
  if m.ttl.isExpired then
    let n := n.shufflePassive
    let replyNodes := n.passiveView.take m.nodes.length
    let n := n.send m.origin (.shuffleReply ⟨n.id, replyNodes⟩)
    n.addShuffledNodesToPassiveView m.nodes
  else do
    let (destination, n) ← n.selectForwardingDestination [m.origin, m.sender]
    match destination with
    | some destination =>
      .ok (n.send destination (.shuffle ⟨n.id, m.origin, m.nodes, m.ttl.decrement⟩))
    | none => .ok n

def handleShuffleReply (n : Node T R) (m : ShuffleReplyMessage T) : Exec (Node T R) :=
  n.addShuffledNodesToPassiveView m.nodes

def handleDisconnect (n : Node T R) (m : DisconnectMessage T) : Exec (Node T R) := do
  let (removed, n) ← n.removeFromActiveView m
  let n ← (if removed then do
      let n ← n.removeFromPassiveView m.sender
      n.fillActiveView
    else .ok n)
  if m.alive then n.addToPassiveView m.sender else .ok n

/-- The handler of every message but `DISCONNECT`, which returns before the last check. -/
def handle (n : Node T R) : ProtocolMessage T → Exec (Node T R)
  | .join m => n.handleJoin m
  | .forwardJoin m => n.handleForwardJoin m
  | .neighbor m => n.handleNeighbor m
  | .shuffle m => n.handleShuffle m
  | .shuffleReply m => n.handleShuffleReply m
  | .disconnect m => n.handleDisconnect m

def handleProtocolMessage (n : Node T R) (message : ProtocolMessage T) : Exec (Node T R) :=
  match message with
  | .disconnect m => n.handleDisconnect m
  | message => do
    let n ← n.handle message
    .ok (n.disconnectUnlessActiveViewNode message.sender)

def disconnect (n : Node T R) (node : T) (alive : Bool) : Exec (Node T R) :=
  n.handleProtocolMessage (.disconnect ⟨node, alive⟩)

end Node

end QuicP2p.Hyparview
