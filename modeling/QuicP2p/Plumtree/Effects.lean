import QuicP2p.Plumtree.Draining

/-! What an operation of a Plumtree node can do: what it stores, delivers and sends, and what it
still waits for. -/

namespace QuicP2p.Plumtree

open Library

variable {N I P : Type}

def Action.outgoing : Action N I P → Option (N × ProtocolMessage N I P)
  | .send destination message => some (destination, message)
  | .deliver _ => none

def Action.delivered : Action N I P → Option (Message I P)
  | .send _ _ => none
  | .deliver message => some message

@[simp] lemma outgoing_send (d : N) (m : ProtocolMessage N I P) :
    (Action.send d m).outgoing = some (d, m) := rfl

@[simp] lemma outgoing_deliver (m : Message I P) :
    (.deliver m : Action N I P).outgoing = none := rfl

@[simp] lemma delivered_send (d : N) (m : ProtocolMessage N I P) :
    (Action.send d m).delivered = none := rfl

@[simp] lemma delivered_deliver (m : Message I P) :
    (.deliver m : Action N I P).delivered = some m := rfl

lemma mem_outgoing {acts : List (Action N I P)} {d : N} {m : ProtocolMessage N I P} :
    (d, m) ∈ acts.filterMap Action.outgoing ↔ .send d m ∈ acts := by
  rw [List.mem_filterMap]
  constructor
  · rintro ⟨a, ha, h⟩
    cases a with
    | send d' m' =>
      simp only [outgoing_send, Option.some.injEq, Prod.mk.injEq] at h
      exact h.1 ▸ h.2 ▸ ha
    | deliver m' => simp at h
  · exact fun h => ⟨_, h, rfl⟩

lemma delivered_sends {acts : List (Action N I P)} (h : ∀ a ∈ acts, ∃ d m, a = .send d m) :
    acts.filterMap Action.delivered = [] := by
  refine List.filterMap_eq_nil_iff.mpr fun a ha => ?_
  obtain ⟨d, m, rfl⟩ := h a ha
  rfl

namespace Node

lemma sendEach_eq (n : Node N I P) (ds : List N) (m : ProtocolMessage N I P) :
    n.sendEach ds m = { n with actions := n.actions ++ ds.map (.send · m) } := by
  induction ds generalizing n with
  | nil => simp [Node.sendEach]
  | cons d ds ih =>
    have h := ih (n.send d m)
    simpa [Node.sendEach, Node.send, Node.pushBack] using h

variable [DecidableEq N]

/-- What a node queues for a message it did not have. -/
def pushed (n : Node N I P) (g : GossipMessage N I P) : List (Action N I P) :=
  .deliver g.message ::
    ((n.eagerPushPeers.toList.filter (fun x => x ≠ g.sender)).map
        (.send · (.gossip ⟨n.id, g.message, g.round.saturatingAdd 1⟩)) ++
      (n.lazyPushPeers.toList.filter (fun x => x ≠ g.sender)).map
        (.send · (.ihave ⟨n.id, g.message.id, g.round.saturatingAdd 1, true⟩)))

lemma push_eq (n : Node N I P) (g : GossipMessage N I P) :
    ((n.deliver g.message).eagerPush g).lazyPush g =
      { n with actions := n.actions ++ n.pushed g } := by
  simp [lazyPush, eagerPush, sendEach_eq, deliver, pushBack, pushed]

lemma mem_pushed {n : Node N I P} {g : GossipMessage N I P} {a : Action N I P} :
    a ∈ n.pushed g ↔ a = .deliver g.message ∨
      (∃ x ∈ n.eagerPushPeers, x ≠ g.sender ∧
        a = .send x (.gossip ⟨n.id, g.message, g.round.saturatingAdd 1⟩)) ∨
      ∃ x ∈ n.lazyPushPeers, x ≠ g.sender ∧
        a = .send x (.ihave ⟨n.id, g.message.id, g.round.saturatingAdd 1, true⟩) := by
  simp only [pushed, List.mem_cons, List.mem_append, List.mem_map, List.mem_filter,
    HashSet.mem_toList, decide_eq_true_eq, and_assoc, @eq_comm _ a]

variable [DecidableEq I]

def Holds (n : Node N I P) (i : I) : Prop := ∃ p, n.messages.get i = some p

/-- What a node queues when a message came along a longer path than its announcement. -/
def optimizing (n : Node N I P) (g : GossipMessage N I P) : List (Action N I P) :=
  match n.missings.getIhave g.message.id with
  | some (ihaveRound, ihaveOwner) =>
    if (g.round.checkedSub ihaveRound).any (n.options.optimizationThreshold ≤ ·) then
      [.send ihaveOwner (.graft ⟨n.id, none, ihaveRound⟩), .send g.sender (.prune ⟨n.id⟩)]
    else []
  | none => []

omit [DecidableEq N] in
lemma optimize_eq (n : Node N I P) (g : GossipMessage N I P) :
    n.optimize g = { n with actions := n.actions ++ n.optimizing g } := by
  unfold optimize optimizing
  cases n.missings.getIhave g.message.id with
  | none => simp
  | some e =>
    dsimp only
    split_ifs <;> simp [send, pushBack]

lemma broadcastMessage_eq (n : Node N I P) (m : Message I P) :
    n.broadcastMessage m = { n with
      actions := n.actions ++ n.pushed ⟨n.id, m, 0⟩
      messages := n.messages.insert m.id m.payload } := by
  simp only [broadcastMessage]
  rw [push_eq n ⟨n.id, m, 0⟩]

lemma handleGossip_of_holds {n : Node N I P} {g : GossipMessage N I P}
    (h : n.Holds g.message.id) :
    n.handleGossip g = (n.toLazy g.sender).send g.sender (.prune ⟨n.id⟩) :=
  if_pos (HashMap.containsKey_iff.mpr h)

lemma handleGossip_of_fresh {n : Node N I P} {g : GossipMessage N I P}
    (h : ¬ n.Holds g.message.id) :
    n.handleGossip g = { n.toEager g.sender with
      actions := n.actions ++ (n.pushed g ++ n.optimizing g)
      missings := n.missings.remove g.message.id
      messages := n.messages.insert g.message.id g.message.payload } := by
  rw [handleGossip, if_neg (mt HashMap.containsKey_iff.mp h), push_eq]
  simp only [optimize_eq, toEager, List.append_assoc]
  rfl

omit [DecidableEq I] in
lemma handleNeighborUp_of_new {n : Node N I P} {x : N} (h : x ∉ n.neighbours) (hi : n.id ≠ x) :
    n.handleNeighborUp x = { n with
      actions := n.actions ++ n.messages.keys.map (fun i => .send x (.ihave ⟨n.id, i, 0, false⟩))
      eagerPushPeers := n.eagerPushPeers.insert x } := by
  have hloop : ∀ (m : Node N I P) (is : List I), m.id = n.id →
      is.foldl (fun n i => n.send x (.ihave ⟨n.id, i, 0, false⟩)) m = { m with
        actions := m.actions ++ is.map (fun i => .send x (.ihave ⟨n.id, i, 0, false⟩)) } := by
    intro m is hm
    induction is generalizing m with
    | nil => simp
    | cons i is ih =>
      rw [List.foldl_cons, ih (m.send x _) hm]
      simp [send, pushBack, hm]
  have hk : ¬ (n.isKnownNode x = true ∨ n.id = x) := by
    rw [isKnownNode_iff, not_or]
    exact ⟨h, hi⟩
  rw [handleNeighborUp, if_neg hk, hloop n n.messages.keys rfl]

/-- The message is announced to the peer, with its payload or without. -/
def Announced (acts : List (Action N I P)) (id x : N) (i : I) : Prop :=
  (∃ p r, .send x (.gossip ⟨id, ⟨i, p⟩, r⟩) ∈ acts) ∨ ∃ r b, .send x (.ihave ⟨id, i, r, b⟩) ∈ acts

/-- The action sends a message in the name of the node, of a message it holds. -/
def Truthful (n : Node N I P) (a : Action N I P) : Prop :=
  ∃ d m, a = .send d m ∧ m.sender = n.id ∧
    (∀ g, m = .gossip g → n.messages.get g.message.id = some g.message.payload) ∧
    ∀ h, m = .ihave h → n.Holds h.messageId

omit [DecidableEq N] in
lemma truthful_send {n : Node N I P} {d : N} {m : ProtocolMessage N I P} :
    n.Truthful (.send d m) ↔ m.sender = n.id ∧
      (∀ g, m = .gossip g → n.messages.get g.message.id = some g.message.payload) ∧
      ∀ h, m = .ihave h → n.Holds h.messageId := by
  constructor
  · rintro ⟨_, _, he, h⟩
    cases he
    exact h
  · exact fun h => ⟨d, m, rfl, h⟩

lemma pushed_truthful {n n' : Node N I P} {g : GossipMessage N I P} (hid : n'.id = n.id)
    (hg : n'.messages.get g.message.id = some g.message.payload) {d : N}
    {m : ProtocolMessage N I P} (h : .send d m ∈ n.pushed g) : n'.Truthful (.send d m) := by
  rw [truthful_send]
  rcases mem_pushed.mp h with h | ⟨x, _, _, h⟩ | ⟨x, _, _, h⟩
  · cases h
  · cases h
    refine ⟨hid.symm, fun g' he => ?_, fun h he => by cases he⟩
    cases he
    exact hg
  · cases h
    refine ⟨hid.symm, fun g' he => (by cases he), fun h he => ?_⟩
    cases he
    exact ⟨_, hg⟩

/-- What has become of a message from a peer. -/
def Answered (n : Node N I P) (acts : List (Action N I P)) : ProtocolMessage N I P → Prop
  | .gossip g => n.Holds g.message.id
  | .ihave h => n.Holds h.messageId ∨ ∃ t b, (t, { h with realtime := b }) ∈ n.missings.waiting
  | .graft g => ∀ i, g.messageId = some i → n.Holds i →
      ∃ p r, .send g.sender (.gossip ⟨n.id, ⟨i, p⟩, r⟩) ∈ acts
  | .prune _ => True

/-- The message that arrives with an input, if the node did not have it. -/
def arrived (n : Node N I P) : Option (ProtocolMessage N I P) → List (Message I P)
  | some (.gossip g) => if n.messages.containsKey g.message.id then [] else [g.message]
  | _ => []

/-- The change from `n` to `n'` on an input, told by the actions `acts` it queued. -/
structure Effect (input : Option (ProtocolMessage N I P)) (n n' : Node N I P)
    (acts : List (Action N I P)) : Prop where
  id_eq : n'.id = n.id
  actions_eq : n'.actions = n.actions ++ acts
  signed : ∀ d m, .send d m ∈ acts → m.sender = n.id
  delivered : acts.filterMap Action.delivered = n.arrived input
  stored : ∀ i p, n'.messages.get i = some p ↔ n.messages.get i = some p ∨ ⟨i, p⟩ ∈ n.arrived input
  carried : ∀ d g, .send d (.gossip g) ∈ acts →
    n'.messages.get g.message.id = some g.message.payload
  held : ∀ d h, .send d (.ihave h) ∈ acts → n'.Holds h.messageId
  spread : ∀ x ∈ n'.neighbours, ∀ i, n'.Holds i → x ∈ n.neighbours ∧ n.Holds i ∨
    Announced acts n.id x i ∨ ∃ g, input = some (.gossip g) ∧ g.sender = x ∧ g.message.id = i
  kept : ∀ a ∈ n.missings.waiting, a ∈ n'.missings.waiting ∨ n'.Holds a.2.messageId ∨
    (∃ r, .send a.2.sender (.graft ⟨n.id, some a.2.messageId, r⟩) ∈ acts) ∨
    a.2.sender ∉ n'.neighbours
  answered : ∀ m, input = some m → Answered n' acts m
  valid : n'.missings.Valid
  recorded : ∀ i, n'.missings.Recorded i → n.missings.Recorded i ∨
    (∃ h, input = some (.ihave h) ∧ h.messageId = i) ∧ ¬ n.Holds i
  cleared : ∀ m ∈ n.arrived input, ¬ n'.missings.Recorded m.id

/-- What a node relies on: the table is valid, and records no message that has arrived. -/
structure WellFormed (n : Node N I P) : Prop where
  valid : n.missings.Valid
  recorded : ∀ i, n.missings.Recorded i → ¬ n.Holds i

omit [DecidableEq N] in
lemma withOptions_wellFormed (id : N) (options : NodeOptions) (choices : List ℕ) :
    (withOptions id options choices : Node N I P).WellFormed where
  valid := MissingMessages.new_valid choices
  recorded i hi := by simp [withOptions, MissingMessages.Recorded, MissingMessages.new] at hi

variable {n n' m k : Node N I P} {acts as bs : List (Action N I P)}
  {input : Option (ProtocolMessage N I P)}

omit [DecidableEq N] in
@[simp] lemma arrived_none : n.arrived none = [] := rfl

omit [DecidableEq N] in
lemma arrived_of_fresh {g : GossipMessage N I P} (h : ¬ n.Holds g.message.id) :
    n.arrived (some (.gossip g)) = [g.message] := if_neg (mt HashMap.containsKey_iff.mp h)

omit [DecidableEq N] in
lemma arrived_of_holds {g : GossipMessage N I P} (h : n.Holds g.message.id) :
    n.arrived (some (.gossip g)) = [] := if_pos (HashMap.containsKey_iff.mpr h)

omit [DecidableEq I] in
lemma pushed_delivered (g : GossipMessage N I P) :
    (n.pushed g).filterMap Action.delivered = [g.message] := by
  refine congrArg (g.message :: ·) (delivered_sends fun a ha => ?_)
  rcases List.mem_append.mp ha with ha | ha <;> obtain ⟨x, _, rfl⟩ := List.mem_map.mp ha
  · exact ⟨_, _, rfl⟩
  · exact ⟨_, _, rfl⟩

namespace Effect

lemma holds (h : Effect input n n' acts) {i : I} (hi : n.Holds i) : n'.Holds i := by
  obtain ⟨p, hp⟩ := hi
  exact ⟨p, (h.stored i p).mpr (.inl hp)⟩

lemma wellFormed (h : Effect input n n' acts) (hn : n.WellFormed) : n'.WellFormed where
  valid := h.valid
  recorded := by
    rintro i hi ⟨p, hp⟩
    rcases (h.stored i p).mp hp with hp | hp
    · rcases h.recorded i hi with hr | ⟨_, hr⟩
      · exact hn.recorded i hr ⟨p, hp⟩
      · exact hr ⟨p, hp⟩
    · exact h.cleared _ hp hi

/-- A change that stores nothing, told by messages that are true of the node. -/
lemma still (hv : n'.missings.Valid) (harr : n.arrived input = []) (hid : n'.id = n.id)
    (hacts : n'.actions = n.actions ++ as) (hm : ∀ i, n'.messages.get i = n.messages.get i)
    (has : ∀ a ∈ as, n'.Truthful a)
    (hpeers : ∀ x ∈ n'.neighbours, x ∈ n.neighbours ∨ ∀ i, n.Holds i → Announced as n.id x i)
    (hw : ∀ a ∈ n.missings.waiting, a ∈ n'.missings.waiting ∨
      (∃ r, .send a.2.sender (.graft ⟨n.id, some a.2.messageId, r⟩) ∈ as) ∨
      a.2.sender ∉ n'.neighbours)
    (hr : ∀ i, n'.missings.Recorded i → n.missings.Recorded i ∨
      (∃ h, input = some (.ihave h) ∧ h.messageId = i) ∧ ¬ n.Holds i)
    (hans : ∀ m, input = some m → Answered n' as m) : Effect input n n' as where
  id_eq := hid
  actions_eq := hacts
  signed d m h := (truthful_send.mp (has _ h)).1.trans hid
  delivered := by
    rw [harr]
    refine delivered_sends fun a ha => ?_
    obtain ⟨d, m, h, _⟩ := has a ha
    exact ⟨d, m, h⟩
  stored i p := by simp [hm, harr]
  carried d g h := (truthful_send.mp (has _ h)).2.1 g rfl
  held d i h := (truthful_send.mp (has _ h)).2.2 i rfl
  spread x hx i hi := by
    have hi : n.Holds i := by simpa [Holds, hm] using hi
    rcases hpeers x hx with hx | hx
    · exact .inl ⟨hx, hi⟩
    · exact .inr (.inl (hx i hi))
  kept a ha := by
    rcases hw a ha with h | h | h
    · exact .inl h
    · exact .inr (.inr (.inl h))
    · exact .inr (.inr (.inr h))
  answered := hans
  valid := hv
  recorded := hr
  cleared m hm := by simp [harr] at hm

lemma refl (h : n.missings.Valid) : Effect none n n [] :=
  still h rfl rfl (List.append_nil _).symm (fun _ => rfl) (by simp) (fun _ hx => .inl hx)
    (fun _ ha => .inl ha) (fun _ hi => .inl hi) (fun _ h => by simp at h)

lemma of_drained {spent : List (NodeTime × IhaveMessage N I)} (h : Drained n m spent) :
    Effect none n m (n.grafts spent) := by
  refine still h.valid rfl h.id_eq h.actions_eq (fun i => by rw [h.messages_eq]) ?_
    (fun x hx => .inl (h.neighbours_eq ▸ hx)) ?_ (fun i hi => .inl (h.recorded i hi))
    (fun _ hm => by simp at hm)
  · intro a ha
    obtain ⟨b, _, _, rfl⟩ := mem_grafts.mp ha
    exact ⟨_, _, rfl, h.id_eq.symm, by simp, by simp⟩
  · intro a ha
    rw [h.waiting_eq, Multiset.mem_add, Multiset.mem_coe] at ha
    rcases ha with ha | ha
    · by_cases hk : a.2.sender ∈ n.neighbours
      · exact .inr (.inl ⟨a.2.round, mem_grafts.mpr ⟨a, ha, hk, rfl⟩⟩)
      · exact .inr (.inr (by rwa [h.neighbours_eq]))
    · exact .inl ha

/-- Two changes in a row that read no input, if the second brings in no new peer. -/
lemma trans (h : Effect none n m as) (h' : Effect none m k bs)
    (hk : ∀ x ∈ k.neighbours, x ∈ m.neighbours) : Effect none n k (as ++ bs) where
  id_eq := h'.id_eq.trans h.id_eq
  actions_eq := by rw [h'.actions_eq, h.actions_eq, List.append_assoc]
  signed d msg hm := by
    rcases List.mem_append.mp hm with hm | hm
    · exact h.signed d msg hm
    · exact (h'.signed d msg hm).trans h.id_eq
  delivered := by rw [List.filterMap_append, h.delivered, h'.delivered]; rfl
  stored i p := by rw [h'.stored, h.stored]; simp
  carried d g hm := by
    rcases List.mem_append.mp hm with hm | hm
    · exact (h'.stored _ _).mpr (.inl (h.carried d g hm))
    · exact h'.carried d g hm
  held d g hm := by
    rcases List.mem_append.mp hm with hm | hm
    · exact h'.holds (h.held d g hm)
    · exact h'.held d g hm
  spread x hx i hi := by
    rcases h'.spread x hx i hi with ⟨hxm, him⟩ | ha | ⟨g, hg, _⟩
    · rcases h.spread x hxm i him with hn | ha | ⟨g, hg, _⟩
      · exact .inl hn
      · right; left
        exact ha.imp (Exists.imp fun _ => Exists.imp fun _ => List.mem_append_left _)
          (Exists.imp fun _ => Exists.imp fun _ => List.mem_append_left _)
      · simp at hg
    · rw [h.id_eq] at ha
      right; left
      exact ha.imp (Exists.imp fun _ => Exists.imp fun _ => List.mem_append_right _)
        (Exists.imp fun _ => Exists.imp fun _ => List.mem_append_right _)
    · simp at hg
  kept a ha := by
    rcases h.kept a ha with ha | ha | ⟨r, hr⟩ | ha
    · rcases h'.kept a ha with ha | ha | ⟨r, hr⟩ | ha
      · exact .inl ha
      · exact .inr (.inl ha)
      · exact .inr (.inr (.inl ⟨r, List.mem_append_right _ (h.id_eq ▸ hr)⟩))
      · exact .inr (.inr (.inr ha))
    · exact .inr (.inl (h'.holds ha))
    · exact .inr (.inr (.inl ⟨r, List.mem_append_left _ hr⟩))
    · exact .inr (.inr (.inr fun hx => ha (hk _ hx)))
  answered m hm := by simp at hm
  valid := h'.valid
  recorded i hi := by
    rcases h'.recorded i hi with hi | ⟨⟨_, hg, _⟩, _⟩
    · exact h.recorded i hi
    · simp at hg
  cleared m hm := by simp at hm

/-- A message that the node did not have is stored, delivered and pushed to the other peers. -/
lemma push {g : GossipMessage N I P} (hg : ¬ n.Holds g.message.id)
    (hid : n'.id = n.id)
    (hacts : n'.actions = n.actions ++ (n.pushed g ++ as))
    (has : ∀ a ∈ as, n'.Truthful a)
    (hm : n'.messages = n.messages.insert g.message.id g.message.payload)
    (hpeers : ∀ x ∈ n'.neighbours, x ∈ n.neighbours) (hv : n'.missings.Valid)
    (hw : ∀ a ∈ n.missings.waiting, a ∈ n'.missings.waiting ∨ a.2.messageId = g.message.id)
    (hr : ∀ i, n'.missings.Recorded i → n.missings.Recorded i ∧ i ≠ g.message.id) :
    Effect (some (.gossip g)) n n' (n.pushed g ++ as) := by
  have harr := arrived_of_fresh hg
  have hstored : ∀ i p, n'.messages.get i = some p ↔ n.messages.get i = some p ∨
      (⟨i, p⟩ : Message I P) = g.message := by
    intro i p
    rw [hm, HashMap.get_insert, Message.ext_iff]
    split_ifs with hi
    · subst hi
      have hnone : n.messages.get g.message.id ≠ some p := fun h => hg ⟨p, h⟩
      simp [hnone, eq_comm]
    · simp [hi]
  have hnew := (hstored g.message.id g.message.payload).mpr (.inr rfl)
  have hholds : n'.Holds g.message.id := ⟨_, hnew⟩
  have htruth : ∀ d m, .send d m ∈ n.pushed g ++ as → n'.Truthful (.send d m) := by
    intro d m h
    rcases List.mem_append.mp h with h | h
    · exact pushed_truthful hid hnew h
    · exact has _ h
  exact {
    id_eq := hid
    actions_eq := hacts
    signed := fun d m h => (truthful_send.mp (htruth d m h)).1.trans hid
    delivered := by
      rw [List.filterMap_append, pushed_delivered, delivered_sends, harr]
      · rfl
      · intro a ha
        obtain ⟨d, m, h, _⟩ := has a ha
        exact ⟨d, m, h⟩
    stored := by simpa [harr] using hstored
    carried := fun d g' h => (truthful_send.mp (htruth d _ h)).2.1 g' rfl
    held := fun d i h => (truthful_send.mp (htruth d _ h)).2.2 i rfl
    spread := by
      rintro x hx i ⟨p, hp⟩
      rcases (hstored i p).mp hp with hp | hp
      · exact .inl ⟨hpeers x hx, p, hp⟩
      · obtain ⟨rfl, rfl⟩ := Message.ext_iff.mp hp
        by_cases hs : x = g.sender
        · exact .inr (.inr ⟨g, rfl, hs.symm, rfl⟩)
        · refine .inr (.inl ?_)
          rcases mem_neighbours.mp (hpeers x hx) with he | hl
          · have hmem := mem_pushed.mpr (.inr (.inl ⟨x, he, hs, rfl⟩))
            exact .inl ⟨_, _, List.mem_append_left _ hmem⟩
          · have hmem := mem_pushed.mpr (.inr (.inr ⟨x, hl, hs, rfl⟩))
            exact .inr ⟨_, _, List.mem_append_left _ hmem⟩
    kept := by
      intro a ha
      rcases hw a ha with ha | ha
      · exact .inl ha
      · exact .inr (.inl (ha ▸ hholds))
    answered := by
      rintro m h
      cases h
      exact hholds
    valid := hv
    recorded := fun i hi => .inl (hr i hi).1
    cleared := by
      intro m hm hi
      rw [harr, List.mem_singleton] at hm
      exact (hr _ hi).2 (hm ▸ rfl) }

end Effect

end Node

end QuicP2p.Plumtree
