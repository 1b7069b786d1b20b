import QuicP2p.P2p.Leaving

/-! The chat node over a peer-to-peer node: it stops when a message says so, whoever sent it. -/

namespace QuicP2p.P2p

open Library

variable {K A M R : Type}

/-- A chat node, with the messages that it has broadcast and those at which it has left. It is
sending while it reads its own channel, at the end of a poll. -/
structure ChatNode (K A R : Type) where
  inner : Session K A (ChatMessage K) R
  messageRx : List (ChatMessage K)
  cancelled : Bool
  sending : Bool
  sent : List (PlumtreeAppMessage K A (ChatMessage K))
  quits : List (PlumtreeAppMessage K A (ChatMessage K))

inductive ChatInput (K A : Type)
  | enter (message : ChatMessage K)
  | arrive (message : P2pNodeProtocolMessage K A (ChatMessage K))
  /-- A poll of the inner node begins. -/
  | poll (tick : Option Draws)
  | advance (receive now : WallClock)
  | send (clock : WallClock)
  /-- The iteration order of the hash collections changes. -/
  | reorder (i j : ℕ)
  deriving DecidableEq

lemma Shelf.Step.origin {α : Type} {x y : Shelf α} {timestamp : α → ℕ} {c : Option WallClock}
    {d : Option α} {a : α} (h : x.Step timestamp c d y)
    (ha : a ∈ (↑y.handedOut + y.pending : Multiset α)) :
    a ∈ (↑x.handedOut + x.pending : Multiset α) ∨ d = some a := by
  cases h with
  | still => exact .inl ha
  | searched h => exact .inl (h.conserved.1 ▸ ha)
  | delivered b t h =>
    rw [h.conserved.1, Multiset.mem_add] at ha
    rcases ha with ha | ha
    · exact .inl (Multiset.mem_add.mpr (.inl ha))
    · have hput : a ∈ b ::ₘ x.pending := by
        rw [← x.pending_put b t]
        exact Multiset.mem_add.mpr (.inl ha)
      rcases Multiset.mem_cons.mp hput with rfl | ha
      · exact .inr rfl
      · exact .inl (Multiset.mem_add.mpr (.inr ha))

namespace Session

variable {M : Type} [DecidableEq K] [DecidableEq A]

/-- The message is on its way to the owner of the node, or has reached it. -/
def Underway (s : Session K A M R) (m : PlumtreeAppMessage K A M) : Prop :=
  .deliver m ∈ s.node.plumtreeNode.actions ∨
    m ∈ (↑s.handedOut + s.shelf.pending : Multiset (PlumtreeAppMessage K A M))

/-- The message of a GOSSIP that the next stage of the poll stores. -/
def stored (s : Session K A M R) : List (PlumtreeAppMessage K A M) :=
  match s.stage, s.node.messageRx with
  | .receive _, .plumtree m :: _ =>
    if s.node.plumtreeNode.isKnownNode m.sender then s.node.plumtreeNode.arrived (some m) else []
  | _, _ => []

variable [Rng R] {s t : Session K A M R} {i : Input K A M} {m : PlumtreeAppMessage K A M}

lemma delivers_effect {p q : PlumtreeNode K A M} {input : Option (PlumtreeMessage K A M)}
    {acts : List (PlumtreeAction K A M)} (h : Plumtree.Node.Effect input p q acts)
    (hm : .deliver m ∈ q.actions) : .deliver m ∈ p.actions ∨ m ∈ p.arrived input := by
  rw [h.actions_eq, List.mem_append] at hm
  refine hm.imp_right fun hm => ?_
  rw [← h.delivered]
  exact List.mem_filterMap.mpr ⟨_, hm, rfl⟩

lemma delivers_pollAction {p q : PlumtreeNode K A M} {a : Option (PlumtreeAction K A M)}
    (hv : p.missings.Valid) (h : p.pollAction = .ok (a, q))
    (hm : a = some (.deliver m) ∨ .deliver m ∈ q.actions) : .deliver m ∈ p.actions := by
  obtain ⟨k, acts, he, _, hr⟩ := (Plumtree.Node.pollAction_effect hv).of_ok h
  cases hr
  have hk : .deliver m ∈ k.actions := by
    rcases hm with hm | hm
    · exact List.mem_of_mem_head? hm
    · exact List.mem_of_mem_tail hm
  exact (delivers_effect he hk).resolve_right List.not_mem_nil

lemma delivers_handleHyparviewAction {n k : P2PNode K A M R} {a : HyparviewAction K A}
    (h : n.handleHyparviewAction a = .ok k) (hv : n.plumtreeNode.missings.Valid)
    (hm : .deliver m ∈ k.plumtreeNode.actions) : .deliver m ∈ n.plumtreeNode.actions := by
  cases a with
  | send d msg =>
    cases h
    exact hm
  | disconnect x =>
    obtain ⟨_, _, h⟩ := bind_eq_ok.mp h
    cases h
    exact hm
  | notify e =>
    cases e with
    | neighborUp x =>
      cases h
      obtain ⟨acts, he⟩ := Plumtree.Node.handleNeighborUp_effect hv x
      exact (delivers_effect he hm).resolve_right List.not_mem_nil
    | neighborDown x =>
      obtain ⟨p, hp, h⟩ := bind_eq_ok.mp h
      cases h
      obtain ⟨⟨acts, he⟩, _⟩ := (Plumtree.Node.handleNeighborDown_effect hv x).of_ok hp
      exact (delivers_effect he hm).resolve_right List.not_mem_nil

lemma delivers_handleProtocolMessage {p : PlumtreeNode K A M} (hv : p.missings.Valid)
    {msg : PlumtreeMessage K A M} (hm : .deliver m ∈ (p.handleProtocolMessage msg).2.actions) :
    .deliver m ∈ p.actions ∨ p.isKnownNode msg.sender = true ∧ m ∈ p.arrived (some msg) := by
  by_cases hk : msg.sender ∈ p.neighbours
  · obtain ⟨acts, he⟩ := Plumtree.Node.handleProtocolMessage_effect hv msg hk
    exact (delivers_effect he hm).imp_right fun hm => ⟨Plumtree.Node.isKnownNode_iff.mpr hk, hm⟩
  · rw [Plumtree.Node.handleProtocolMessage_unknown hk] at hm
    exact .inl hm

omit [Rng R] in
lemma buffered_mem (hv : s.node.plumtreeNode.missings.Valid) (h : s.buffered i = some m) :
    .deliver m ∈ s.node.plumtreeNode.actions := by
  cases i with
  | advance receive now =>
    simp only [buffered, delivering] at h
    split at h
    · cases hp : s.node.plumtreeNode.pollAction with
      | error e =>
        rw [hp] at h
        cases h
      | ok r =>
        obtain ⟨a, q⟩ := r
        rw [hp] at h
        obtain ⟨a, rfl, ha⟩ := Option.bind_eq_some_iff.mp h
        cases a with
        | send d msg => cases ha
        | deliver x =>
          cases ha
          exact delivers_pollAction hv hp (.inl rfl)
    · cases h
  | _ => cases h

omit [DecidableEq K] [DecidableEq A] [Rng R] in
lemma found_handedOut (stage : Stage) (r : Option (PlumtreeAppMessage K A M) × P2PNode K A M R) :
    (s.found stage r).handedOut = s.handedOut ∨
      (s.found stage r).stage = .idle ∧ ∃ m, (s.found stage r).handedOut = s.handedOut ++ [m] := by
  obtain ⟨_ | m, _⟩ := r
  · exact .inl rfl
  · exact .inr ⟨rfl, m, rfl⟩

lemma handedOut_of_step (hs : s.step i = .ok t) : t.handedOut = s.handedOut ∨
    t.stage = .idle ∧ ∃ m, t.handedOut = s.handedOut ++ [m] := by
  cases stepped_of_step hs with
  | searched => exact found_handedOut _ _
  | executed => exact found_handedOut _ _
  | _ => exact .inl rfl

lemma Agreeing.origin (h : s.Agreeing) (hs : s.step i = .ok t) (hm : t.Underway m) :
    s.Underway m ∨
      (∃ payload clock id n, i = .broadcast payload clock ∧
        s.node.broadcast payload clock = .ok (id, n) ∧ m = ⟨id, payload⟩) ∨
      ∃ receive now, i = .advance receive now ∧ m ∈ s.stored := by
  have hv := h.coherent.valid
  rcases hm with hm | hm
  · cases stepped_of_step hs with
    | refused => exact .inl (.inl hm)
    | joined => exact .inl (.inl hm)
    | @broadcast payload clock id n _ hb =>
      obtain ⟨millis, _, _, rfl⟩ := P2PNode.broadcast_ok hb
      rw [Plumtree.Node.broadcastMessage_eq] at hm
      rcases List.mem_append.mp hm with hm | hm
      · exact .inl (.inl hm)
      · rcases Plumtree.Node.mem_pushed.mp hm with he | ⟨_, _, _, he⟩ | ⟨_, _, _, he⟩ <;> cases he
        exact .inr (.inl ⟨payload, clock, id, _, rfl, hb, rfl⟩)
    | left =>
      rw [P2PNode.leave_eq] at hm
      exact .inl (.inl hm)
    | arrived => exact .inl (.inl hm)
    | reordered => exact .inl (.inl hm)
    | polled => exact .inl (.inl hm)
    | ticked _ ht =>
      obtain ⟨_, _, _, _, _, _, _, _, _, rfl⟩ := P2PNode.handleTick_ok ht
      exact .inl (.inl hm)
    | acted _ _ hn =>
      have hd := delivers_handleHyparviewAction hn hv hm
      exact .inl (.inl hd)
    | drained => exact .inl (.inl hm)
    | searched _ hr =>
      rw [node_found] at hm
      obtain ⟨_, _, hsame⟩ := ((processSequentialMessages_spec _ _).of_ok hr).same
      rw [hsame] at hm
      exact .inl (.inl hm)
    | @executed b receive now a p r _ ha hr =>
      have hkept : r.2.plumtreeNode = p := by
        cases a with
        | send d msg =>
          cases hr
          rfl
        | deliver x =>
          obtain ⟨_, _, hsame⟩ := ((processSequentialMessages_spec _ _).of_ok hr).same
          rw [hsame]
      have hm : .deliver m ∈ (s.found (.plumtree true) r).node.plumtreeNode.actions := hm
      rw [node_found, hkept] at hm
      exact .inl (.inl (delivers_pollAction hv ha (.inr hm)))
    | exhausted _ ha => exact .inl (.inl (delivers_pollAction hv ha (.inr hm)))
    | @received b stop receive now msg rest n hstage hrx hn =>
      cases msg with
      | hyparview msg =>
        obtain ⟨_, _, hn⟩ := bind_eq_ok.mp hn
        cases hn
        exact .inl (.inl hm)
      | plumtree msg =>
        cases hn
        rcases delivers_handleProtocolMessage hv hm with hm | ⟨hk, hm⟩
        · exact .inl (.inl hm)
        · refine .inr (.inr ⟨receive, now, rfl, ?_⟩)
          simp only [stored, hstage, hrx, hk, if_true]
          exact hm
      | plumtreeStream msg => cases hn
    | ended => exact .inl (.inl hm)
  · rcases (shelf_of_step hs).origin hm with hm | hm
    · exact .inl (.inr hm)
    · exact .inl (.inl (buffered_mem hv hm))

end Session

namespace ChatNode

def new (node : P2PNode K A (ChatMessage K) R) : ChatNode K A R :=
  ⟨⟨node, .idle, [], []⟩, [], false, false, [], []⟩

/-- What the chat node does with a message that a poll of the inner node has handed out. -/
def receive (c : ChatNode K A R) (m : PlumtreeAppMessage K A (ChatMessage K)) : ChatNode K A R :=
  if m.payload.getContent = "quit" then
    { c with
      inner := { c.inner with node := c.inner.node.leave }
      cancelled := true
      quits := c.quits ++ [m] }
  else c

variable [DecidableEq K] [DecidableEq A]

/-- Take a message from the channel and broadcast it; the poll ends with an empty channel. -/
def send (c : ChatNode K A R) (clock : WallClock) : Exec (ChatNode K A R) :=
  match c.messageRx with
  | message :: messageRx => do
    let (id, node) ← c.inner.node.broadcast message clock
    .ok { c with
      inner := { c.inner with node := node }
      messageRx := messageRx
      sent := c.sent ++ [⟨id, message⟩] }
  | [] => .ok { c with sending := false }

variable [Rng R]

/-- The start of a node as in `main`, which may join a contact at once. -/
def launch (nodeId : NodeId K A) (rng : R) (draws : Draws) (choices : List ℕ)
    (connectTo : Option (NodeId K A)) : Exec (ChatNode K A R) := do
  let node ← P2PNode.new nodeId rng draws choices
  .ok (new (match connectTo with
    | some contactNode => node.join contactNode
    | none => node))

/-- The inner poll goes one stage on; when it ends without a message, the channel is read. -/
def advance (c : ChatNode K A R) (receive now : WallClock) : Exec (ChatNode K A R) := do
  let inner ← c.inner.advance receive now
  let c' : ChatNode K A R := { c with inner := inner }
  match inner.handedOut.drop c.inner.handedOut.length with
  | m :: _ => .ok (c'.receive m)
  | [] => .ok { c' with sending := inner.stage = .idle }

def step (c : ChatNode K A R) : ChatInput K A → Exec (ChatNode K A R)
  | .enter message => .ok { c with messageRx := c.messageRx ++ [message] }
  | .arrive message =>
    .ok { c with inner := { c.inner with node := c.inner.node.arrive message } }
  | .poll tick =>
    if c.inner.stage = .idle ∧ c.sending = false then do
      let inner ← c.inner.step (.poll tick)
      .ok { c with inner := inner }
    else .ok c
  | .advance receive now => if c.inner.stage = .idle then .ok c else c.advance receive now
  | .send clock => if c.sending then c.send clock else .ok c
  | .reorder i j => .ok { c with inner := { c.inner with node := c.inner.node.reorder i j } }

/-- The message of a GOSSIP that a step stores. -/
def stored (c : ChatNode K A R) : ChatInput K A → List (PlumtreeAppMessage K A (ChatMessage K))
  | .advance _ _ => c.inner.stored
  | _ => []

variable {c d c₀ : ChatNode K A R} {i : ChatInput K A}

/-- Every message that asks to quit, wherever it is, is one that the node has broadcast. -/
structure Loyal (c : ChatNode K A R) : Prop where
  agreeing : c.inner.Agreeing
  idle : c.sending = true → c.inner.stage = .idle
  own : ∀ m, c.inner.Underway m → m.payload.getContent = "quit" → m ∈ c.sent
  quits : ∀ m ∈ c.quits, m ∈ c.inner.handedOut ∧ m.payload.getContent = "quit" ∧ m ∈ c.sent
  cancelled : c.cancelled = true ↔ c.quits ≠ []

/-- The inner node goes on, and stores no message of a peer that asks to quit. -/
lemma Loyal.inner (h : c.Loyal) {j : Input K A (ChatMessage K)} {t : Session K A (ChatMessage K) R}
    (hs : c.inner.step j = .ok t) (hj : ∀ payload clock, j ≠ .broadcast payload clock)
    (hstored : ∀ receive now, j = .advance receive now →
      ∀ m ∈ c.inner.stored, m.payload.getContent ≠ "quit")
    (hidle : c.sending = true → t.stage = .idle) :
    ({ c with inner := t } : ChatNode K A R).Loyal where
  agreeing := h.agreeing.step hs
  idle := hidle
  own m hm hq := by
    rcases h.agreeing.origin hs hm with hm | ⟨payload, clock, _, _, he, _⟩ | ⟨receive, now, he, hm⟩
    · exact h.own m hm hq
    · exact absurd he (hj payload clock)
    · exact absurd hq (hstored receive now he m hm)
  quits m hm := by
    obtain ⟨hout, hq⟩ := h.quits m hm
    refine ⟨?_, hq⟩
    rcases Session.handedOut_of_step hs with he | ⟨_, _, he⟩
    · exact he ▸ hout
    · exact he ▸ List.mem_append_left _ hout
  cancelled := h.cancelled

lemma Loyal.receive (h : c.Loyal) {m : PlumtreeAppMessage K A (ChatMessage K)}
    (hm : m ∈ c.inner.handedOut) (hidle : c.inner.stage = .idle) : (c.receive m).Loyal := by
  unfold ChatNode.receive
  split
  next hq =>
    have hsent : m ∈ c.sent := h.own m (.inr (Multiset.mem_add.mpr (.inl hm))) hq
    have hs : c.inner.step .leave = .ok { c.inner with node := c.inner.node.leave } := by
      rw [Session.step, if_pos hidle]
    have hl := h.inner hs (by simp) (by simp) fun _ => hidle
    refine ⟨hl.agreeing, hl.idle, hl.own, ?_, by simp⟩
    intro x hx
    rcases List.mem_append.mp hx with hx | hx
    · exact hl.quits x hx
    · rw [List.mem_singleton.mp hx]
      exact ⟨hm, hq, hsent⟩
  next => exact h

lemma Loyal.send (h : c.Loyal) {clock : WallClock} (hsending : c.sending = true)
    (hd : c.send clock = .ok d) : d.Loyal := by
  have hidle := h.idle hsending
  unfold ChatNode.send at hd
  split at hd
  next message rest _ =>
    obtain ⟨⟨id, n⟩, hb, hd⟩ := bind_eq_ok.mp hd
    cases hd
    have hs : c.inner.step (.broadcast message clock) = .ok { c.inner with node := n } := by
      rw [Session.step, if_pos hidle, hb]
      rfl
    refine ⟨h.agreeing.step hs, fun _ => hidle, ?_, ?_, h.cancelled⟩
    · intro m hm hq
      apply List.mem_append.mpr
      rcases h.agreeing.origin hs hm with
        hm | ⟨payload, clock', id', k, he, hb', rfl⟩ | ⟨_, _, he, _⟩
      · exact .inl (h.own m hm hq)
      · cases he
        cases hb.symm.trans hb'
        exact .inr (List.mem_singleton_self _)
      · cases he
    · intro m hm
      obtain ⟨hout, hq, hsent⟩ := h.quits m hm
      exact ⟨hout, hq, List.mem_append_left _ hsent⟩
  next =>
    cases hd
    exact ⟨h.agreeing, fun _ => hidle, h.own, h.quits, h.cancelled⟩

lemma Loyal.advance (h : c.Loyal) {receive now : WallClock}
    (hstored : ∀ m ∈ c.inner.stored, m.payload.getContent ≠ "quit") (hbusy : c.inner.stage ≠ .idle)
    (hd : c.advance receive now = .ok d) : d.Loyal := by
  obtain ⟨t, ht, hd⟩ := bind_eq_ok.mp hd
  have hs : c.inner.step (.advance receive now) = .ok t := ht
  have hl := h.inner hs (by simp) (fun _ _ _ => hstored) fun hsending =>
    absurd (h.idle hsending) hbusy
  split at hd
  next m rest hout =>
    cases hd
    have hm : m ∈ t.handedOut := List.mem_of_mem_drop (hout ▸ List.mem_cons_self)
    refine hl.receive hm ?_
    rcases Session.handedOut_of_step hs with he | ⟨hidle, _⟩
    · rw [he, List.drop_length] at hout
      cases hout
    · exact hidle
  next =>
    cases hd
    exact ⟨hl.agreeing, of_decide_eq_true, hl.own, hl.quits, hl.cancelled⟩

lemma Loyal.step (h : c.Loyal) (hs : c.step i = .ok d)
    (hstored : ∀ m ∈ c.stored i, m.payload.getContent ≠ "quit") : d.Loyal := by
  cases i with
  | enter message =>
    cases hs
    exact ⟨h.agreeing, h.idle, h.own, h.quits, h.cancelled⟩
  | arrive message =>
    cases hs
    exact h.inner (j := .arrive message) rfl (by simp) (by simp) h.idle
  | poll tick =>
    simp only [ChatNode.step] at hs
    split_ifs at hs with hidle
    · obtain ⟨t, ht, hs⟩ := bind_eq_ok.mp hs
      cases hs
      exact h.inner ht (by simp) (by simp) (by simp [hidle.2])
    · cases hs
      exact h
  | advance receive now =>
    simp only [ChatNode.step] at hs
    split_ifs at hs with hidle
    · cases hs
      exact h
    · exact h.advance hstored hidle hs
  | send clock =>
    simp only [ChatNode.step] at hs
    split_ifs at hs with hsending
    · exact h.send hsending hs
    · cases hs
      exact h
  | reorder j k =>
    cases hs
    exact h.inner (j := .reorder j k) rfl (by simp) (by simp) h.idle

variable {nodeId : NodeId K A} {rng : R} {draws : Draws} {choices : List ℕ}
  {connectTo : Option (NodeId K A)} {tr : List (Taken (ChatNode K A R) (ChatInput K A))}

lemma launch_loyal (h₀ : launch nodeId rng draws choices connectTo = .ok c₀) : c₀.Loyal := by
  obtain ⟨n, hn, h₀⟩ := bind_eq_ok.mp h₀
  have hnew : Session.new nodeId rng draws choices = .ok ⟨n, .idle, [], []⟩ := by
    rw [Session.new, hn]
    rfl
  have hjoin : ∀ contactNode, Session.step (⟨n, .idle, [], []⟩ : Session K A (ChatMessage K) R)
      (.join contactNode) = .ok ⟨n.join contactNode, .idle, [], []⟩ := fun _ => rfl
  have hempty : ∀ m, ¬ Session.Underway (⟨n, .idle, [], []⟩ : Session K A (ChatMessage K) R) m := by
    intro m hm
    obtain ⟨_, _, _, he⟩ := Session.new_ok hnew
    cases he
    rcases hm with hm | hm
    · cases hm
    · simp [Shelf.pending, Session.shelf, P2PNode.shelf, BTreeMap.contents, BTreeMap.empty] at hm
  have hstart : (new n : ChatNode K A R).Loyal :=
    ⟨Session.new_agreeing hnew, fun _ => rfl, fun m hm => absurd hm (hempty m), by simp [new],
      by simp [new]⟩
  cases h₀
  cases connectTo with
  | none => exact hstart
  | some contactNode =>
    exact hstart.inner (hjoin contactNode) (by simp) (by simp) fun _ => rfl

/-- A node leaves and cancels for a message that it has broadcast itself, if no step of the run
stores a message of a peer that asks to quit. -/
theorem quits_for_own (h₀ : launch nodeId rng draws choices connectTo = .ok c₀)
    (h : Run step c₀ tr c)
    (hstored : ∀ e ∈ tr, ∀ m ∈ e.before.stored e.input, m.payload.getContent ≠ "quit") :
    (c.cancelled = true ↔ c.quits ≠ []) ∧
      ∀ m ∈ c.quits, m ∈ c.inner.handedOut ∧ m.payload.getContent = "quit" ∧ m ∈ c.sent := by
  have hl := h.invariant_of (P := Loyal)
    (C := fun e => ∀ m ∈ e.before.stored e.input, m.payload.getContent ≠ "quit")
    (fun t i u hl hs hc => hl.step hs hc) (launch_loyal h₀) hstored
  exact ⟨hl.cancelled, hl.quits⟩

/-- The chat node of a node that is alone. -/
def alone : ChatNode ℕ ℕ Playback := new {
  hyparviewNode := .new ⟨[], 0⟩ ⟨[]⟩
  plumtreeNode := .withOptions ⟨[], 0⟩ {} []
  messageSeqno := 0
  messageBuffer := .empty
  processedMessages := []
  server := []
  messageRx := []
  params := {}
  hyparviewShuffleTime := fromSecs 300
  hyparviewSyncActiveViewTime := fromSecs 60
  hyparviewFillActiveViewTime := fromSecs 30 }

lemma launch_alone : launch ⟨[], 0⟩ ⟨[]⟩ ⟨0, 0, 0⟩ [] none = .ok alone := rfl

/-- A poll with its stages, during which the clock stands still. -/
def polled (millis : ℕ) : List (ChatInput ℕ ℕ) :=
  .poll none :: List.replicate 14 (.advance (some millis) (some millis)) ++
    List.replicate 2 (.send (some millis))

/-- The owner of the node asks it to quit. -/
def dismissed : List (ChatInput ℕ ℕ) :=
  .enter ⟨0, "quit", .user 0⟩ :: polled 1000 ++ polled 1000 ++ polled 3000

theorem quits_for_own_dismissed : ∃ (c : ChatNode ℕ ℕ Playback)
    (tr : List (Taken (ChatNode ℕ ℕ Playback) (ChatInput ℕ ℕ))), Run step alone tr c ∧
      c.quits.length = 1 ∧ (c.cancelled = true ↔ c.quits ≠ []) ∧
      ∀ m ∈ c.quits, m ∈ c.inner.handedOut ∧ m.payload.getContent = "quit" ∧ m ∈ c.sent := by
  have hrun : follow step alone dismissed = .ok _ := rfl
  exact ⟨_, _, Run.of_follow dismissed hrun, by decide,
    quits_for_own launch_alone (Run.of_follow dismissed hrun) (by decide)⟩

/-- Node 1 becomes a neighbour, and tells the others that it quits. -/
def overheard : List (ChatInput ℕ ℕ) :=
  .arrive (.hyparview (.join ⟨⟨[], 1⟩⟩)) :: polled 1000 ++
    .arrive (.plumtree (.gossip
      ⟨⟨[], 1⟩, ⟨⟨⟨[], 1⟩, 0, 100⟩, ⟨0, "quit", .user 1⟩⟩, 0⟩)) :: polled 1000 ++ polled 3000

/-- A node leaves and cancels for a message of its neighbour. -/
theorem quits_for_neighbour : ∃ (c : ChatNode ℕ ℕ Playback)
    (tr : List (Taken (ChatNode ℕ ℕ Playback) (ChatInput ℕ ℕ))),
      launch ⟨[], 0⟩ ⟨[]⟩ ⟨0, 0, 0⟩ [] none = .ok alone ∧ Run step alone tr c ∧
      c.cancelled = true ∧ ∃ m ∈ c.quits, m.id.node = ⟨[], 1⟩ ∧ m ∉ c.sent := by
  have hrun : follow step alone overheard = .ok _ := rfl
  exact ⟨_, _, launch_alone, Run.of_follow overheard hrun, by decide, by decide⟩

end ChatNode

end QuicP2p.P2p
