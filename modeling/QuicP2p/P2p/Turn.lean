import QuicP2p.P2p.Leaving
import QuicP2p.Plumtree.Cluster

/-! What one step of a session does to the two protocols, to their queues and to the messages that
wait. -/

namespace QuicP2p.P2p

open Library

variable {K A M R : Type}

/-- The call on the server that an action of Plumtree makes. -/
def plumtreeCall : PlumtreeAction K A M → List (ServerCall K A M)
  | .send destination message => [.sendProtocolMessageSync destination (.plumtree message)]
  | .deliver _ => []

/-- The message that a call of the node `id` sends, and where it goes. -/
def ServerCall.mail (id : NodeId K A) :
    ServerCall K A M → Option (NodeId K A × P2pNodeProtocolMessage K A M)
  | .sendProtocolMessageSync destination message => some (destination, message)
  | .sendProtocolMessage destination message => some (destination, message)
  | .removeRemoteNode _ => none
  | .notifySelfDisconnect destination => some (id, P2PNode.lost destination)

namespace Session

/-- The messages that wait in the queues of the node and of its server. -/
def outbox (s : Session K A M R) : List (NodeId K A × P2pNodeProtocolMessage K A M) :=
  (s.node.hyparviewNode.actions.flatMap P2PNode.callOf ++
    s.node.plumtreeNode.actions.flatMap plumtreeCall ++ s.node.server).filterMap
      (ServerCall.mail s.node.id)

/-- The server makes its next call. What the node tells itself does not leave it. -/
def post (s : Session K A M R) :
    Option (NodeId K A × P2pNodeProtocolMessage K A M) × Session K A M R :=
  match s.node.server with
  | [] => (none, s)
  | c :: server =>
    let node := { s.node with server := server }
    match c.toSelf with
    | some message => (none, { s with node := node.arrive message })
    | none => (c.mail s.node.id, { s with node := node })

/-- The message that an input takes from the queue of the received ones. -/
def taken (s : Session K A M R) : Input K A M → Option (P2pNodeProtocolMessage K A M)
  | .advance _ _ =>
    match s.stage with
    | .receive _ => s.node.messageRx.head?
    | _ => none
  | _ => none

lemma taken_of_stage {s : Session K A M R} {i : Input K A M} (h : ∀ b, s.stage ≠ .receive b) :
    s.taken i = none := by
  cases i with
  | advance receive now => simp only [taken]
  | _ => rfl

variable [DecidableEq K] [DecidableEq A] [Rng R]

/-- One step of a session: `ha` and `pa` are the actions that it brings to the two queues, `hd` and
`pd` those that it executes. Plumtree moves to `k` up to its queue. -/
structure Turn (s : Session K A M R) (i : Input K A M) (t : Session K A M R)
    (ha hd : List (HyparviewAction K A)) (pa pd : List (PlumtreeAction K A M))
    (calls : List (ServerCall K A M)) (input : Option (PlumtreeMessage K A M))
    (k : PlumtreeNode K A M) : Prop where
  hyparview : s.node.hyparviewNode.actions ++ ha = hd ++ t.node.hyparviewNode.actions
  plumtree : k.actions = pd ++ t.node.plumtreeNode.actions
  same : t.node.plumtreeNode = { k with actions := t.node.plumtreeNode.actions }
  server : t.node.server =
    s.node.server ++ (hd.flatMap P2PNode.callOf ++ pd.flatMap plumtreeCall ++ calls)
  calls_hyparview : ∀ c ∈ calls, ∀ d m, c.mail s.node.id = some (d, m) → ∃ h, m = .hyparview h
  effect : Plumtree.Node.Effect input s.node.plumtreeNode k pa
  downs : ∀ x, .notify (.neighborDown x) ∈ ha →
    .send x (.disconnect ⟨s.node.id, true⟩) ∈ ha ∨ s.taken i = some (P2PNode.lost x)
  peers : ∀ x ∈ s.node.plumtreeNode.neighbours, .notify (.neighborDown x) ∉ hd →
    x ∈ k.neighbours
  gone : ∀ x, .notify (.neighborDown x) ∈ hd → x ∉ k.neighbours
  heard : ∀ m, s.taken i = some (.plumtree m) → m.sender ∈ s.node.plumtreeNode.neighbours →
    input = some m
  told : ∀ x alive, s.taken i = some (.hyparview (.disconnect ⟨x, alive⟩)) →
    x ∈ s.node.plumtreeNode.neighbours → .notify (.neighborDown x) ∈ ha
  cause : ∀ m, input = some m →
    s.taken i = some (.plumtree m) ∨ ∃ payload timestamp,
      m = .gossip ⟨s.node.id, ⟨⟨s.node.id, s.node.messageSeqno, timestamp⟩, payload⟩, 0⟩ ∧
        t.node.messageSeqno = s.node.messageSeqno + 1
  seqno : s.node.messageSeqno ≤ t.node.messageSeqno
  received : ∀ m ∈ s.node.messageRx, m ∈ t.node.messageRx ∨ s.taken i = some m
  unchanged : ∀ m ∈ t.node.messageRx, m ∈ s.node.messageRx ∨ i = .arrive m

namespace Turn

variable {s t : Session K A M R} {i : Input K A M} {ha hd : List (HyparviewAction K A)}
  {pa pd : List (PlumtreeAction K A M)} {calls : List (ServerCall K A M)}
  {input : Option (PlumtreeMessage K A M)} {k : PlumtreeNode K A M}

omit [Rng R] in
lemma id_eq (h : Turn s i t ha hd pa pd calls input k) : t.node.id = s.node.id := by
  rw [P2PNode.id, h.same]
  exact h.effect.id_eq

omit [Rng R] in
lemma neighbours_eq (h : Turn s i t ha hd pa pd calls input k) :
    t.node.plumtreeNode.neighbours = k.neighbours := by
  rw [h.same]
  rfl

omit [Rng R] in
lemma mem_outbox (h : Turn s i t ha hd pa pd calls input k)
    {e : NodeId K A × P2pNodeProtocolMessage K A M} :
    e ∈ t.outbox ↔ e ∈ s.outbox ∨ e ∈ (ha.flatMap P2PNode.callOf ++ pa.flatMap plumtreeCall ++
      calls).filterMap (ServerCall.mail s.node.id) := by
  have hh : ∀ c : ServerCall K A M, c ∈ hd.flatMap P2PNode.callOf ∨
      c ∈ t.node.hyparviewNode.actions.flatMap P2PNode.callOf ↔
      c ∈ s.node.hyparviewNode.actions.flatMap P2PNode.callOf ∨ c ∈ ha.flatMap P2PNode.callOf := by
    intro c
    rw [← List.mem_append, ← List.flatMap_append, ← h.hyparview, List.flatMap_append,
      List.mem_append]
  have hp : ∀ c : ServerCall K A M, c ∈ pd.flatMap plumtreeCall ∨
      c ∈ t.node.plumtreeNode.actions.flatMap plumtreeCall ↔
      c ∈ s.node.plumtreeNode.actions.flatMap plumtreeCall ∨ c ∈ pa.flatMap plumtreeCall := by
    intro c
    rw [← List.mem_append, ← List.flatMap_append, ← h.plumtree, h.effect.actions_eq,
      List.flatMap_append, List.mem_append]
  have hmem : ∀ c : ServerCall K A M,
      c ∈ t.node.hyparviewNode.actions.flatMap P2PNode.callOf ++
        t.node.plumtreeNode.actions.flatMap plumtreeCall ++ t.node.server ↔
      c ∈ s.node.hyparviewNode.actions.flatMap P2PNode.callOf ++
          s.node.plumtreeNode.actions.flatMap plumtreeCall ++ s.node.server ∨
        c ∈ ha.flatMap P2PNode.callOf ++ pa.flatMap plumtreeCall ++ calls := by
    intro c
    have hh := hh c
    have hp := hp c
    rw [h.server]
    simp only [List.mem_append]
    grind
  simp only [outbox, h.id_eq, List.mem_filterMap, hmem, or_and_right, exists_or]

omit [Rng R] in
lemma outbox_of_act (h : Turn s i t ha hd pa pd calls input k) {d : NodeId K A}
    {m : PlumtreeMessage K A M} (hm : .send d m ∈ pa) : (d, .plumtree m) ∈ t.outbox := by
  rw [h.mem_outbox, List.mem_filterMap]
  refine .inr ⟨.sendProtocolMessageSync d (.plumtree m), ?_, rfl⟩
  apply List.mem_append_left
  apply List.mem_append_right
  exact List.mem_flatMap.mpr ⟨_, hm, List.mem_cons_self⟩

omit [Rng R] in
lemma act_of_outbox (h : Turn s i t ha hd pa pd calls input k) {d : NodeId K A}
    {m : PlumtreeMessage K A M} (hm : (d, .plumtree m) ∈ t.outbox) :
    (d, .plumtree m) ∈ s.outbox ∨ .send d m ∈ pa := by
  rw [h.mem_outbox, List.mem_filterMap] at hm
  refine hm.imp_right ?_
  rintro ⟨c, hc, he⟩
  rcases List.mem_append.mp hc with hc | hc
  · rcases List.mem_append.mp hc with hc | hc <;>
      obtain ⟨a, ha, hc⟩ := List.mem_flatMap.mp hc
    · cases a with
      | send d' m' =>
        obtain rfl := List.mem_singleton.mp hc
        cases he
      | notify e => simp [P2PNode.callOf] at hc
      | disconnect x =>
        obtain rfl := List.mem_singleton.mp hc
        cases he
    · cases a with
      | send d' m' =>
        obtain rfl := List.mem_singleton.mp hc
        cases he
        exact ha
      | deliver m' => simp [plumtreeCall] at hc
  · obtain ⟨m', hm'⟩ := h.calls_hyparview c hc d _ he
    cases hm'

omit [Rng R] in
/-- A neighbour that is lost is told so, or is lost by what it told. -/
lemma down_new (h : Turn s i t ha hd pa pd calls input k) {x : NodeId K A}
    (hx : .notify (.neighborDown x) ∈ ha) :
    (x, .hyparview (.disconnect ⟨s.node.id, true⟩)) ∈ t.outbox ∨
      s.taken i = some (P2PNode.lost x) := by
  refine (h.downs x hx).imp_left fun hsend => ?_
  rw [h.mem_outbox, List.mem_filterMap]
  refine .inr ⟨.sendProtocolMessageSync x (.hyparview (.disconnect ⟨s.node.id, true⟩)), ?_, rfl⟩
  apply List.mem_append_left
  apply List.mem_append_left
  exact List.mem_flatMap.mpr ⟨_, hsend, List.mem_cons_self⟩

omit [Rng R] in
/-- The event stays in the queue until Plumtree drops the peer. -/
lemma down_kept (h : Turn s i t ha hd pa pd calls input k) {x : NodeId K A}
    (hx : .notify (.neighborDown x) ∈ s.node.hyparviewNode.actions ++ ha) :
    .notify (.neighborDown x) ∈ t.node.hyparviewNode.actions ∨
      x ∉ t.node.plumtreeNode.neighbours := by
  rw [h.hyparview, List.mem_append] at hx
  rw [h.neighbours_eq]
  exact hx.symm.imp_right (h.gone x)

omit [Rng R] in
lemma peer_kept (h : Turn s i t ha hd pa pd calls input k) {x : NodeId K A}
    (hx : x ∈ s.node.plumtreeNode.neighbours)
    (hdown : .notify (.neighborDown x) ∉ s.node.hyparviewNode.actions ++ ha) :
    x ∈ t.node.plumtreeNode.neighbours := by
  rw [h.neighbours_eq]
  apply h.peers x hx
  intro hx'
  apply hdown
  rw [h.hyparview]
  exact List.mem_append_left _ hx'

omit [Rng R] in
/-- HyParView moves, and Plumtree does no more than keep the time. -/
lemma of_hyparview (silent : NodeId K A → Prop)
    (hv : Hyparview.Node.Effect silent s.node.hyparviewNode t.node.hyparviewNode ha)
    (hsilent : ∀ x, silent x → s.taken i = some (P2PNode.lost x))
    (hid : s.node.id = s.node.hyparviewNode.id)
    (hp : Plumtree.Node.Effect none s.node.plumtreeNode t.node.plumtreeNode [])
    (hn : t.node.plumtreeNode.neighbours = s.node.plumtreeNode.neighbours)
    (hs : t.node.server = s.node.server ++ calls)
    (hcalls : ∀ c ∈ calls, ∀ d m, c.mail s.node.id = some (d, m) → ∃ h, m = .hyparview h)
    (hseqno : t.node.messageSeqno = s.node.messageSeqno)
    (hheard : ∀ m, s.taken i = some (.plumtree m) → m.sender ∉ s.node.plumtreeNode.neighbours)
    (htold : ∀ x alive, s.taken i = some (.hyparview (.disconnect ⟨x, alive⟩)) →
      x ∈ s.node.plumtreeNode.neighbours → .notify (.neighborDown x) ∈ ha)
    (hr : ∀ m ∈ s.node.messageRx, m ∈ t.node.messageRx ∨ s.taken i = some m)
    (hu : ∀ m ∈ t.node.messageRx, m ∈ s.node.messageRx ∨ i = .arrive m) :
    Turn s i t ha [] [] [] calls none t.node.plumtreeNode where
  hyparview := hv.actions_eq.symm
  plumtree := rfl
  same := rfl
  server := hs
  calls_hyparview := hcalls
  effect := hp
  downs x hx := by
    rw [hid]
    exact (hv.downs x hx).symm.imp_right (hsilent x)
  peers x hx _ := hn ▸ hx
  gone x hx := by simp at hx
  heard m hm hsender := absurd hsender (hheard m hm)
  told := htold
  cause m hm := by simp at hm
  seqno := hseqno.ge
  received := hr
  unchanged := hu

omit [Rng R] in
lemma of_plumtree {as : List (PlumtreeAction K A M)}
    (he : Plumtree.Node.Effect input s.node.plumtreeNode k pa)
    (hn : k.neighbours = s.node.plumtreeNode.neighbours)
    (hacts : k.actions = pd ++ as) (hk : t.node.plumtreeNode = { k with actions := as })
    (hh : t.node.hyparviewNode = s.node.hyparviewNode)
    (hs : t.node.server = s.node.server ++ pd.flatMap plumtreeCall)
    (hheard : ∀ m, s.taken i = some m → ∃ p, m = .plumtree p ∧ input = some p)
    (hcause : ∀ m, input = some m →
      s.taken i = some (.plumtree m) ∨ ∃ payload timestamp,
        m = .gossip ⟨s.node.id, ⟨⟨s.node.id, s.node.messageSeqno, timestamp⟩, payload⟩, 0⟩ ∧
          t.node.messageSeqno = s.node.messageSeqno + 1)
    (hseqno : s.node.messageSeqno ≤ t.node.messageSeqno)
    (hr : ∀ m ∈ s.node.messageRx, m ∈ t.node.messageRx ∨ s.taken i = some m)
    (hu : ∀ m ∈ t.node.messageRx, m ∈ s.node.messageRx) :
    Turn s i t [] [] pa pd [] input k where
  hyparview := by rw [hh, List.append_nil, List.nil_append]
  plumtree := by rw [hacts, hk]
  same := by rw [hk]
  server := by simpa using hs
  calls_hyparview c hc := by simp at hc
  effect := he
  downs x hx := by simp at hx
  peers x hx _ := hn ▸ hx
  gone x hx := by simp at hx
  heard m hm _ := by
    obtain ⟨p, hp, hi⟩ := hheard _ hm
    cases hp
    exact hi
  told x alive hx := by
    obtain ⟨p, hp, _⟩ := hheard _ hx
    cases hp
  cause := hcause
  seqno := hseqno
  received := hr
  unchanged m hm := .inl (hu m hm)

omit [Rng R] in
/-- The head of the queue of HyParView is executed. -/
lemma of_acted {b : Bool} {a : HyparviewAction K A} (hstage : s.stage = .hyparview b)
    (ha : s.node.hyparviewNode.actions = a :: t.node.hyparviewNode.actions)
    (he : Plumtree.Node.Effect none s.node.plumtreeNode t.node.plumtreeNode pa)
    (hpeers : ∀ x ∈ s.node.plumtreeNode.neighbours, a ≠ .notify (.neighborDown x) →
      x ∈ t.node.plumtreeNode.neighbours)
    (hgone : ∀ x, a = .notify (.neighborDown x) → x ∉ t.node.plumtreeNode.neighbours)
    (hs : t.node.server = s.node.server ++ P2PNode.callOf a)
    (hseqno : t.node.messageSeqno = s.node.messageSeqno)
    (hr : t.node.messageRx = s.node.messageRx) :
    Turn s i t [] [a] pa [] [] none t.node.plumtreeNode :=
  have htaken : s.taken i = none := taken_of_stage fun b' hb => by cases hstage.symm.trans hb
  { hyparview := by rw [ha, List.append_nil]; rfl
    plumtree := rfl
    same := rfl
    server := by simpa using hs
    calls_hyparview := fun c hc => by simp at hc
    effect := he
    downs := fun x hx => by simp at hx
    peers := fun x hx hd => hpeers x hx fun he => hd (he ▸ List.mem_cons_self)
    gone := fun x hx => hgone x (List.mem_singleton.mp hx).symm
    heard := fun m hm => by simp [htaken] at hm
    told := fun x alive hx => by simp [htaken] at hx
    cause := fun m hm => by simp at hm
    seqno := hseqno.ge
    received := fun m hm => .inl (hr ▸ hm)
    unchanged := fun m hm => .inl (hr ▸ hm) }

omit [Rng R] in
/-- Neither of the protocols moves. -/
lemma still (h : s.Agreeing) (hh : t.node.hyparviewNode = s.node.hyparviewNode)
    (hp : t.node.plumtreeNode = s.node.plumtreeNode) (hs : t.node.server = s.node.server ++ calls)
    (hcalls : ∀ c ∈ calls, ∀ d m, c.mail s.node.id = some (d, m) → ∃ h, m = .hyparview h)
    (hseqno : t.node.messageSeqno = s.node.messageSeqno) (htaken : s.taken i = none)
    (hr : ∀ m ∈ s.node.messageRx, m ∈ t.node.messageRx)
    (hu : ∀ m ∈ t.node.messageRx, m ∈ s.node.messageRx ∨ i = .arrive m) :
    Turn s i t [] [] [] [] calls none t.node.plumtreeNode :=
  of_hyparview (fun _ => False) (hh ▸ .refl _) (fun _ hx => hx.elim) h.coherent.id_eq
    (by rw [hp]; exact .refl h.coherent.valid) (by rw [hp]) hs hcalls hseqno
    (fun m hm => by simp [htaken] at hm) (fun x alive hx => by simp [htaken] at hx)
    (fun m hm => .inl (hr m hm)) hu

end Turn

def Turns (s : Session K A M R) (i : Input K A M) (t : Session K A M R) : Prop :=
  ∃ ha hd pa pd calls input k, Turn s i t ha hd pa pd calls input k

namespace Turns

variable {s t : Session K A M R} {i : Input K A M} {n : P2PNode K A M R}
  {receive now : WallClock} {b : Bool}

omit [Rng R] in
lemma of_still (h : s.Agreeing) (hh : t.node.hyparviewNode = s.node.hyparviewNode)
    (hp : t.node.plumtreeNode = s.node.plumtreeNode) (hs : t.node.server = s.node.server)
    (hseqno : t.node.messageSeqno = s.node.messageSeqno) (htaken : s.taken i = none)
    (hr : t.node.messageRx = s.node.messageRx) : Turns s i t :=
  ⟨_, _, _, _, [], _, _, .still h hh hp (by rw [hs, List.append_nil]) (by simp) hseqno htaken
    (fun m hm => hr ▸ hm) (fun m hm => .inl (hr ▸ hm))⟩

omit [Rng R] in
lemma joined (h : s.Agreeing) (c : NodeId K A) :
    Turns s (.join c) { s with node := s.node.join c } := by
  refine ⟨_, _, _, _, [], _, _, .of_hyparview (fun _ => False)
    (.send _ c (.join ⟨s.node.hyparviewNode.id⟩) rfl (by simp)) (fun _ hx => hx.elim)
    h.coherent.id_eq (.refl h.coherent.valid) rfl (List.append_nil _).symm (by simp) rfl ?_ ?_
    (fun m hm => .inl hm) (fun m hm => .inl hm)⟩
  · intro m hm
    simp [taken] at hm
  · intro x alive hx
    simp [taken] at hx

omit [Rng R] in
lemma broadcast (h : s.Agreeing) {payload : M} {clock : WallClock} {id : MessageId K A}
    (hb : s.node.broadcast payload clock = .ok (id, n))
    (hnew : ∀ timestamp, ¬ s.node.plumtreeNode.Holds ⟨s.node.id, s.node.messageSeqno, timestamp⟩ ∧
      ¬ s.node.plumtreeNode.missings.Recorded ⟨s.node.id, s.node.messageSeqno, timestamp⟩) :
    Turns s (.broadcast payload clock) { s with node := n } := by
  obtain ⟨millis, _, rfl, rfl⟩ := P2PNode.broadcast_ok hb
  obtain ⟨hh, hr⟩ := hnew (asU64 millis)
  obtain ⟨pa, he⟩ := Plumtree.Node.broadcastMessage_effect h.coherent.valid
    (m := ⟨⟨s.node.id, s.node.messageSeqno, asU64 millis⟩, payload⟩) hh hr
  refine ⟨[], [], pa, [], [], _, _, .of_plumtree he (Plumtree.Node.neighbours_broadcastMessage _)
    rfl rfl rfl (List.append_nil _).symm ?_ ?_ (Nat.le_succ _) (fun m hm => .inl hm)
    (fun m hm => hm)⟩
  · intro m hm
    simp [taken] at hm
  · intro m hm
    cases hm
    exact .inr ⟨payload, _, rfl, rfl⟩

omit [Rng R] in
lemma left (h : s.Agreeing) : Turns s .leave { s with node := s.node.leave } := by
  have hleft := P2PNode.leave_eq s.node
  refine ⟨[], [], [], [], _, none, _, .still h (by rw [hleft]) (by rw [hleft]) (by rw [hleft]) ?_
    (by rw [hleft]) rfl (by rw [hleft]; exact fun m hm => hm)
    (by rw [hleft]; exact fun m hm => .inl hm)⟩
  intro c hc d m hm
  obtain ⟨x, _, hc⟩ := List.mem_flatMap.mp hc
  rcases List.mem_cons.mp hc with rfl | hc
  · cases hm
    exact ⟨_, rfl⟩
  · obtain rfl := List.mem_singleton.mp hc
    cases hm
    exact ⟨_, rfl⟩

omit [Rng R] in
lemma arrived (h : s.Agreeing) (m : P2pNodeProtocolMessage K A M) :
    Turns s (.arrive m) { s with node := s.node.arrive m } := by
  refine ⟨_, _, _, _, [], _, _, .still h rfl rfl (List.append_nil _).symm (by simp) rfl rfl
    (fun m' hm => List.mem_append_left _ hm) fun m' hm => ?_⟩
  refine (List.mem_append.mp hm).imp_right fun hm => ?_
  rw [List.mem_singleton.mp hm]

omit [Rng R] in
lemma reordered (h : s.Agreeing) (i j : ℕ) :
    Turns s (.reorder i j) { s with node := s.node.reorder i j } :=
  ⟨[], [], [], [], [], none, _, .of_plumtree (Plumtree.Node.reorder_effect h.coherent.valid i j)
    (Plumtree.Node.neighbours_reorder i j) rfl rfl rfl (List.append_nil _).symm (by simp [taken])
    (by simp) le_rfl (fun m hm => .inl hm) (fun m hm => hm)⟩

lemma ticked (h : s.Agreeing) {draws : Draws} (ht : s.node.handleTick draws = .ok n) :
    Turns s (.poll (some draws)) { s with node := n, stage := .hyparview false } := by
  obtain ⟨⟨_, _, he⟩, _⟩ := P2PNode.handleTick_evolves h.coherent.wellFormed ht
  obtain ⟨_, _, _, _, _, _, _, _, _, rfl⟩ := P2PNode.handleTick_ok ht
  refine ⟨_, _, _, _, [], _, _, .of_hyparview _ he (fun _ hx => hx.elim) h.coherent.id_eq
    (Plumtree.Node.tick_effect h.coherent.valid _) rfl (List.append_nil _).symm (by simp) rfl ?_ ?_
    (fun m hm => .inl hm) (fun m hm => .inl hm)⟩
  · intro m hm
    simp [taken] at hm
  · intro x alive hx
    simp [taken] at hx

lemma acted (h : s.Agreeing) {a : HyparviewAction K A} {rest : List (HyparviewAction K A)}
    (hstage : s.stage = .hyparview b) (ha : s.node.hyparviewNode.actions = a :: rest)
    (hn : P2PNode.handleHyparviewAction { s.node with
      hyparviewNode := { s.node.hyparviewNode with actions := rest } } a = .ok n) :
    Turns s (.advance receive now) { s with node := n, stage := .hyparview true } := by
  have hserver := (P2PNode.handleHyparviewAction_ok hn).2
  have hacts : s.node.hyparviewNode.actions = a :: n.hyparviewNode.actions := by
    rw [h.popped ha hn, ha]
  have hv := h.coherent.valid
  cases a with
  | send d msg =>
    cases hn
    exact ⟨_, _, _, _, _, _, _, .of_acted hstage hacts (.refl hv) (fun x hx _ => hx)
      (fun x hx => by simp at hx) hserver rfl rfl⟩
  | disconnect x =>
    obtain ⟨hy, hx, hn⟩ := bind_eq_ok.mp hn
    cases hn
    exact ⟨_, _, _, _, _, _, _, .of_acted hstage hacts (.refl hv) (fun x hx _ => hx)
      (fun x hx => by simp at hx) hserver rfl rfl⟩
  | notify e =>
    cases e with
    | neighborUp x =>
      cases hn
      have hne : s.node.plumtreeNode.id ≠ x := by
        rw [h.coherent.id_eq]
        refine (h.coherent.ups x ?_).symm
        rw [ha]
        exact List.mem_cons_self
      obtain ⟨pa, he⟩ := Plumtree.Node.handleNeighborUp_effect hv x
      refine ⟨_, _, _, _, _, _, _, .of_acted hstage hacts he (fun y hy _ => ?_)
        (fun y hy => by simp at hy) hserver rfl rfl⟩
      change y ∈ (s.node.plumtreeNode.handleNeighborUp x).neighbours
      rw [Plumtree.Node.neighbours_handleNeighborUp hne]
      exact Finset.mem_insert_of_mem hy
    | neighborDown x =>
      obtain ⟨p, hp, hn⟩ := bind_eq_ok.mp hn
      cases hn
      obtain ⟨⟨pa, he⟩, hpeers⟩ := (Plumtree.Node.handleNeighborDown_effect hv x).of_ok hp
      refine ⟨_, _, _, _, _, _, _, .of_acted hstage hacts he (fun y hy hne => ?_) (fun y hy => ?_)
        hserver rfl rfl⟩
      · change y ∈ p.neighbours
        rw [hpeers]
        refine Finset.mem_erase.mpr ⟨?_, hy⟩
        rintro rfl
        exact hne rfl
      · cases hy
        change x ∉ p.neighbours
        rw [hpeers]
        exact Finset.notMem_erase x _

omit [Rng R] in
lemma executed (h : s.Agreeing) {a : PlumtreeAction K A M} {p : PlumtreeNode K A M}
    {r : Option (PlumtreeAppMessage K A M) × P2PNode K A M R} (hstage : s.stage = .plumtree b)
    (ha : s.node.plumtreeNode.pollAction = .ok (some a, p))
    (hr : P2PNode.handlePlumtreeAction { s.node with plumtreeNode := p } receive now a = .ok r) :
    Turns s (.advance receive now)
      { s.found (.plumtree true) r with delivered := s.delivered ++ deliverOf receive a } := by
  obtain ⟨k, pa, he, hn, hp⟩ := (Plumtree.Node.pollAction_effect h.coherent.valid).of_ok ha
  obtain ⟨hhead, rfl⟩ := Prod.mk.inj hp
  obtain ⟨rest, hrest⟩ := List.head?_eq_some_iff.mp hhead.symm
  have hacts : k.actions = [a] ++ k.actions.tail := by
    rw [hrest]
    rfl
  have htaken : s.taken (.advance receive now) = none := taken_of_stage (by simp [hstage])
  have hdone : r.2.hyparviewNode = s.node.hyparviewNode ∧
      r.2.plumtreeNode = { k with actions := k.actions.tail } ∧
      r.2.server = s.node.server ++ plumtreeCall a ∧
      r.2.messageSeqno = s.node.messageSeqno ∧ r.2.messageRx = s.node.messageRx := by
    cases a with
    | send d msg =>
      cases hr
      exact ⟨rfl, rfl, rfl, rfl, rfl⟩
    | deliver m =>
      obtain ⟨⟨_, _, hr⟩, _⟩ := (processSequentialMessages_spec _ _).of_ok hr
      rw [hr]
      exact ⟨rfl, rfl, (List.append_nil _).symm, rfl, rfl⟩
  obtain ⟨hhv, hpt, hsv, hq, hrx⟩ := hdone
  have hnode : ({ s.found (.plumtree true) r with
      delivered := s.delivered ++ deliverOf receive a } : Session K A M R).node = r.2 := node_found
  refine ⟨_, _, pa, _, _, none, k, .of_plumtree he hn hacts (by rw [hnode, hpt])
    (by rw [hnode, hhv]) ?_ (by simp [htaken]) (by simp) (by rw [hnode, hq]) ?_ ?_⟩
  · rw [hnode, hsv]
    simp
  · rw [hnode, hrx]
    exact fun m hm => .inl hm
  · rw [hnode, hrx]
    exact fun m hm => hm

omit [Rng R] in
lemma exhausted (h : s.Agreeing) {p : PlumtreeNode K A M} (hstage : s.stage = .plumtree b)
    (ha : s.node.plumtreeNode.pollAction = .ok (none, p)) :
    Turns s (.advance receive now)
      { s with node := { s.node with plumtreeNode := p }, stage := .receive b } := by
  obtain ⟨k, pa, he, hn, hp⟩ := (Plumtree.Node.pollAction_effect h.coherent.valid).of_ok ha
  obtain ⟨hhead, rfl⟩ := Prod.mk.inj hp
  have hnil : k.actions = [] := List.head?_eq_none_iff.mp hhead.symm
  have hacts : k.actions = [] ++ k.actions.tail := by rw [hnil]; rfl
  have htaken : s.taken (.advance receive now) = none := taken_of_stage (by simp [hstage])
  exact ⟨_, _, pa, _, _, none, k, .of_plumtree he hn hacts rfl rfl (List.append_nil _).symm
    (by simp [htaken]) (by simp) le_rfl (fun m hm => .inl hm) (fun m hm => hm)⟩

/-- A message that takes a neighbour away from HyParView is told to Plumtree. -/
lemma received (h : s.Agreeing) {stop : Bool} {m : P2pNodeProtocolMessage K A M}
    {rest : List (P2pNodeProtocolMessage K A M)} (hstage : s.stage = .receive b)
    (hm : s.node.messageRx = m :: rest)
    (hn : P2PNode.handleP2pnodeProtocolMessage { s.node with messageRx := rest } m =
      .ok (stop, n)) :
    Turns s (.advance receive now)
      { s with node := n, stage := if stop then .hyparview false else .receive true } := by
  have htaken : s.taken (.advance receive now) = some m := by simp [taken, hstage, hm]
  have hr : ∀ m' ∈ s.node.messageRx, m' ∈ rest ∨ some m = some m' := by
    intro m' hm'
    rw [hm] at hm'
    exact (List.mem_cons.mp hm').symm.imp_right fun he => by rw [he]
  have hu : ∀ m' ∈ rest, m' ∈ s.node.messageRx := fun m' hm' => hm ▸ List.mem_cons_of_mem _ hm'
  have hv := h.coherent.valid
  cases m with
  | hyparview m =>
    obtain ⟨hv', hx, hn⟩ := bind_eq_ok.mp hn
    cases hn
    obtain ⟨⟨_, acts, he⟩, hsettled⟩ :=
      (Hyparview.Node.handleProtocolMessage_spec h.coherent.wellFormed m).of_ok hx
    refine ⟨acts, _, _, _, [], _, _, .of_hyparview _ he ?_ h.coherent.id_eq (.refl hv) rfl
      (List.append_nil _).symm (by simp) rfl ?_ ?_ (htaken ▸ hr) fun m hm => .inl (hu m hm)⟩
    · intro x hx
      cases m with
      | disconnect m =>
        obtain ⟨ha, rfl⟩ := hx
        rw [htaken, P2PNode.lost, ← ha]
      | _ => exact hx.elim
    · intro m' hm'
      rw [htaken] at hm'
      cases hm'
    · intro x alive hx hmem
      rw [htaken] at hx
      cases hx
      have hdrained : s.node.hyparviewNode.actions = [] := by
        apply h.drained
        rw [hstage]
        trivial
      have hagreed := h.coherent.agreed
      rw [hdrained, Hyparview.replay_nil] at hagreed
      rw [Option.some.inj hagreed] at hmem
      exact Hyparview.down_of_replay he.replayed hmem (mt List.mem_toFinset.mp hsettled)
  | plumtree m =>
    cases hn
    by_cases hs : m.sender ∈ s.node.plumtreeNode.neighbours
    · obtain ⟨pa, he⟩ := Plumtree.Node.handleProtocolMessage_effect hv m hs
      refine ⟨[], [], pa, [], [], _, _, .of_plumtree he
        (Plumtree.Node.neighbours_handleProtocolMessage m) rfl rfl rfl (List.append_nil _).symm
        ?_ ?_ le_rfl (htaken ▸ hr) hu⟩
      · intro m' hm'
        rw [htaken] at hm'
        cases hm'
        exact ⟨m, rfl, rfl⟩
      · intro m' hm'
        cases hm'
        exact .inl htaken
    · have hsame : (s.node.plumtreeNode.handleProtocolMessage m).2 = s.node.plumtreeNode := by
        rw [Plumtree.Node.handleProtocolMessage_unknown hs]
      refine ⟨_, _, _, _, [], _, _, .of_hyparview (fun _ => False) (.refl _)
        (fun _ hx => hx.elim) h.coherent.id_eq ?_ ?_ (List.append_nil _).symm (by simp) rfl ?_ ?_
        (htaken ▸ hr) fun m hm => .inl (hu m hm)⟩
      · change Plumtree.Node.Effect none _ (s.node.plumtreeNode.handleProtocolMessage m).2 []
        rw [hsame]
        exact .refl hv
      · exact congrArg Plumtree.Node.neighbours hsame
      · intro m' hm'
        rw [htaken] at hm'
        cases hm'
        exact hs
      · intro x alive hx
        rw [htaken] at hx
        cases hx
  | plumtreeStream m => cases hn

/-- Each step of a session is one turn of it. -/
lemma of_step (h : s.Agreeing) (hs : s.step i = .ok t)
    (hnew : ∀ timestamp, ¬ s.node.plumtreeNode.Holds ⟨s.node.id, s.node.messageSeqno, timestamp⟩ ∧
      ¬ s.node.plumtreeNode.missings.Recorded ⟨s.node.id, s.node.messageSeqno, timestamp⟩) :
    Turns s i t := by
  cases stepped_of_step hs with
  | refused hi =>
    refine of_still h rfl rfl rfl rfl ?_ rfl
    cases i with
    | advance receive now =>
      apply taken_of_stage
      intro b hb
      cases (hi receive now rfl).symm.trans hb
    | _ => rfl
  | joined => exact joined h _
  | broadcast _ hb => exact broadcast h hb hnew
  | left => exact left h
  | arrived => exact arrived h _
  | polled => exact of_still h rfl rfl rfl rfl rfl rfl
  | ticked _ ht => exact ticked h ht
  | acted hstage ha hn => exact acted h hstage ha hn
  | drained hstage => exact of_still h rfl rfl rfl rfl (taken_of_stage (by simp [hstage])) rfl
  | @searched b receive now r hstage hr =>
    obtain ⟨⟨_, _, hr⟩, _⟩ := (processSequentialMessages_spec _ _).of_ok hr
    have hnode : (s.found (.plumtree b) r).node = r.2 := node_found
    apply of_still h
    · rw [hnode, hr]
    · rw [hnode, hr]
    · rw [hnode, hr]
    · rw [hnode, hr]
    · exact taken_of_stage (by simp [hstage])
    · rw [hnode, hr]
  | executed hstage ha hr => exact executed h hstage ha hr
  | exhausted hstage ha => exact exhausted h hstage ha
  | received hstage hm hn => exact received h hstage hm hn
  | ended hstage hm => exact of_still h rfl rfl rfl rfl (by simp [taken, hstage, hm]) rfl
  | reordered => exact reordered h _ _

end Turns

omit [DecidableEq K] [DecidableEq A] [Rng R] in
lemma mem_of_taken {s : Session K A M R} {i : Input K A M} {m : P2pNodeProtocolMessage K A M}
    (h : s.taken i = some m) : m ∈ s.node.messageRx ∧ ∃ b, s.stage = .receive b := by
  cases i with
  | advance receive now =>
    simp only [taken] at h
    split at h
    next b hb => exact ⟨List.mem_of_mem_head? h, b, hb⟩
    next => cases h
  | _ => cases h

/-- What a call of the server leaves alone, and what becomes of the messages that wait. -/
structure Posted (s : Session K A M R)
    (r : Option (NodeId K A × P2pNodeProtocolMessage K A M) × Session K A M R) : Prop where
  hyparview_eq : r.2.node.hyparviewNode = s.node.hyparviewNode
  plumtree_eq : r.2.node.plumtreeNode = s.node.plumtreeNode
  seqno_eq : r.2.node.messageSeqno = s.node.messageSeqno
  stage_eq : r.2.stage = s.stage
  kept : ∀ e ∈ s.outbox, e ∈ r.2.outbox ∨ r.1 = some e ∨
    e.1 = s.node.id ∧ e.2 ∈ r.2.node.messageRx
  fresh : ∀ e, e ∈ r.2.outbox ∨ r.1 = some e → e ∈ s.outbox
  received : ∀ m ∈ s.node.messageRx, m ∈ r.2.node.messageRx
  told : ∀ m ∈ r.2.node.messageRx, m ∈ s.node.messageRx ∨ (s.node.id, m) ∈ s.outbox

omit [DecidableEq K] [DecidableEq A] [Rng R] in
lemma post_spec (s : Session K A M R) : Posted s s.post := by
  unfold post
  split
  next hserver =>
    exact ⟨rfl, rfl, rfl, rfl, fun e he => .inl he, fun e he => he.elim id (by simp),
      fun m hm => hm, fun m hm => .inl hm⟩
  next c server hserver =>
    have hmem : ∀ e, e ∈ s.outbox ↔ c.mail s.node.id = some e ∨
        e ∈ ({ s with node := { s.node with server := server } } : Session K A M R).outbox := by
      intro e
      simp only [outbox, P2PNode.id, hserver, List.mem_filterMap, List.mem_append, List.mem_cons]
      grind
    cases c with
    | notifySelfDisconnect x =>
      refine ⟨rfl, rfl, rfl, rfl, fun e he => ?_, fun e he => ?_,
        fun m hm => List.mem_append_left _ hm, fun m hm => ?_⟩
      · rcases (hmem e).mp he with he | he
        · cases he
          exact .inr (.inr ⟨rfl, List.mem_append_right _ List.mem_cons_self⟩)
        · exact .inl he
      · rcases he with he | he
        · exact (hmem e).mpr (.inr he)
        · cases he
      · refine (List.mem_append.mp hm).imp_right fun hm => (hmem _).mpr (.inl ?_)
        rw [List.mem_singleton.mp hm]
        rfl
    | _ =>
      refine ⟨rfl, rfl, rfl, rfl, fun e he => ?_, fun e he => ?_, fun m hm => hm,
        fun m hm => .inl hm⟩
      · exact ((hmem e).mp he).symm.imp_right .inl
      · exact (hmem e).mpr he.symm

end Session

end QuicP2p.P2p
