import QuicP2p.Plumtree.Sends

/-! A peer is eager or lazy and never both, so that a message is announced to it once. -/

namespace QuicP2p.Plumtree

open Library

variable {N I P : Type} [DecidableEq N] [DecidableEq I]

/-- The action announces the message to the node, with its payload or without. -/
def Action.announces (x : N) (i : I) : Action N I P → Bool
  | .send d (.gossip g) => d = x ∧ g.message.id = i
  | .send d (.ihave h) => d = x ∧ h.messageId = i
  | _ => false

namespace Node

structure Partitioned (n : Node N I P) : Prop where
  disjoint : ∀ x ∈ n.eagerPushPeers, x ∉ n.lazyPushPeers
  others : n.id ∉ n.neighbours

variable {n m : Node N I P} {x : N}

omit [DecidableEq I] in
lemma withOptions_partitioned (id : N) (options : NodeOptions) (choices : List ℕ) :
    (withOptions id options choices : Node N I P).Partitioned where
  disjoint x hx := absurd hx (HashSet.notMem_empty x)
  others := by simp [withOptions]

namespace Partitioned

omit [DecidableEq I] in
lemma toEager (h : n.Partitioned) (hx : x ∈ n.neighbours) : (n.toEager x).Partitioned where
  disjoint y he hl := by
    rw [mem_toEager.1] at he
    rw [mem_toEager.2] at hl
    rcases he with rfl | he
    · exact hl.1 rfl
    · exact h.disjoint y he hl.2
  others := by
    rw [neighbours_toEager hx]
    exact h.others

omit [DecidableEq I] in
lemma toLazy (h : n.Partitioned) (hx : x ∈ n.neighbours) : (n.toLazy x).Partitioned where
  disjoint y he hl := by
    obtain ⟨hne, he⟩ := HashSet.mem_remove.mp he
    rcases HashSet.mem_insert.mp hl with rfl | hl
    · exact hne rfl
    · exact h.disjoint y he hl
  others := by
    rw [neighbours_toLazy hx]
    exact h.others

omit [DecidableEq I] in
lemma dropPeer (h : n.Partitioned) (x : N) : (n.dropPeer x).Partitioned where
  disjoint y he hl := h.disjoint y (HashSet.mem_remove.mp he).2 (HashSet.mem_remove.mp hl).2
  others := by
    rw [neighbours_dropPeer]
    exact fun hm => h.others (Finset.mem_of_mem_erase hm)

/-- The loops make the senders eager whose announcements they take, and these lazy no more. -/
lemma drained (h : n.Partitioned) {spent : List (NodeTime × IhaveMessage N I)}
    (hd : Drained n m spent) : m.Partitioned where
  disjoint y he hl := by
    obtain ⟨hl, hno⟩ := (hd.lazy y).mp hl
    rcases (hd.eager y).mp he with he | ⟨_, hs⟩
    · exact h.disjoint y he hl
    · exact hno hs
  others := by
    rw [hd.id_eq, hd.neighbours_eq]
    exact h.others

omit [DecidableEq I] in
lemma reorder (h : n.Partitioned) (i j : ℕ) : (n.reorder i j).Partitioned where
  disjoint y he hl :=
    h.disjoint y (HashSet.mem_reorder.mp he) (HashSet.mem_reorder.mp hl)
  others := by
    rw [neighbours_reorder]
    exact h.others

omit [DecidableEq I] in
lemma handleNeighborUp (h : n.Partitioned) (x : N) : (n.handleNeighborUp x).Partitioned := by
  by_cases hk : x ∈ n.neighbours ∨ n.id = x
  · rw [Node.handleNeighborUp, if_pos (by rwa [isKnownNode_iff])]
    exact h
  · rw [not_or] at hk
    have hup := neighbours_handleNeighborUp (n := n) hk.2
    rw [handleNeighborUp_of_new hk.1 hk.2] at hup ⊢
    constructor
    · intro y he hl
      rcases HashSet.mem_insert.mp he with rfl | he
      · exact hk.1 (mem_neighbours.mpr (.inr hl))
      · exact h.disjoint y he hl
    · rw [hup, Finset.mem_insert, not_or]
      exact ⟨hk.2, h.others⟩

lemma handleProtocolMessage (h : n.Partitioned) (msg : ProtocolMessage N I P) :
    (n.handleProtocolMessage msg).2.Partitioned := by
  by_cases hs : msg.sender ∈ n.neighbours
  · rw [handleProtocolMessage.eq_def, if_pos (isKnownNode_iff.mpr hs)]
    cases msg with
    | gossip g =>
      dsimp only
      by_cases hg : n.Holds g.message.id
      · rw [handleGossip_of_holds hg]
        exact ⟨(h.toLazy hs).disjoint, (h.toLazy hs).others⟩
      · rw [handleGossip_of_fresh hg]
        exact ⟨(h.toEager hs).disjoint, (h.toEager hs).others⟩
    | ihave i =>
      dsimp only [handleIhave]
      split
      · exact h
      · exact ⟨h.disjoint, h.others⟩
    | graft g =>
      have hmoved := h.toEager hs
      dsimp only [handleGraft]
      split
      · split
        · exact ⟨hmoved.disjoint, hmoved.others⟩
        · exact hmoved
      · exact hmoved
    | prune p => exact h.toLazy hs
  · rw [handleProtocolMessage_unknown hs]
    exact h

lemma perform (h : n.Partitioned) (hn : n.missings.Valid) (c : Call N I P) :
    Yields (n.perform c) Partitioned := by
  cases c with
  | broadcastMessage msg =>
    refine .ok ?_
    rw [broadcastMessage_eq]
    exact ⟨h.disjoint, h.others⟩
  | forgetMessage i => exact .ok ⟨h.disjoint, h.others⟩
  | handleNeighborUp x => exact .ok (h.handleNeighborUp x)
  | handleNeighborDown x =>
    refine (handleNeighborDown_spec hn x).mono fun m hm => ?_
    cases hm with
    | unknown _ => exact h
    | eager _ _ => exact h.dropPeer x
    | grafted _ hk =>
      obtain ⟨_, _, hk⟩ := hk.drained
      exact (h.dropPeer x).drained hk
  | tick d => exact .ok ⟨h.disjoint, h.others⟩
  | reorder i j => exact .ok (h.reorder i j)
  | optionsMut o => exact .ok ⟨h.disjoint, h.others⟩

lemma operate (h : n.Partitioned) (hn : n.missings.Valid) (i : Input N I P) :
    Yields (n.operate i) (fun r => r.2.Partitioned) := by
  cases i with
  | call c => exact (h.perform hn c).bind fun m hm => .ok hm
  | receive msg => exact .ok (h.handleProtocolMessage msg)
  | pollAction =>
    refine (handleExpiration_spec hn).bind ?_
    rintro m ⟨⟨spent, hm, _⟩, _⟩
    exact .ok ⟨(h.drained hm).disjoint, (h.drained hm).others⟩

end Partitioned

variable {id : N} {options : NodeOptions} {choices : List ℕ}
  {tr : List (Taken (Node N I P) (Input N I P))}

lemma partitioned_of_run (h : Run step (withOptions id options choices) tr n) :
    n.Partitioned := by
  have hboth : n.Partitioned ∧ n.missings.Valid := by
    refine h.invariant (P := fun m => m.Partitioned ∧ m.missings.Valid) ?_
      ⟨withOptions_partitioned id options choices, MissingMessages.new_valid choices⟩
    rintro m i k ⟨hp, hv⟩ hs
    obtain ⟨r, hr, hs⟩ := bind_eq_ok.mp hs
    cases hs
    obtain ⟨_, hposted⟩ := (operate_posted hv i).of_ok hr
    exact ⟨(hp.operate hv i).of_ok hr, hposted.valid⟩
  exact hboth.1

/-- What a peer is told of a message that came with the given number of hops. -/
def announcement (n : Node N I P) (g : GossipMessage N I P) (x : N) : Action N I P :=
  if x ∈ n.eagerPushPeers then .send x (.gossip ⟨n.id, g.message, g.round.saturatingAdd 1⟩)
  else .send x (.ihave ⟨n.id, g.message.id, g.round.saturatingAdd 1, true⟩)

/-- Among the actions, each peer but the sender has one announcement of the message, and no other
node has any. -/
def ToldOnce (n : Node N I P) (g : GossipMessage N I P) (acts : List (Action N I P)) : Prop :=
  ∀ x, acts.filter (Action.announces x g.message.id) =
    if x ∈ n.neighbours ∧ x ≠ g.sender then [n.announcement g x] else []

omit [DecidableEq I] in
lemma filter_sends {f : N → Action N I P} {p : Action N I P → Bool} {xs : HashSet N} {s : N}
    (hp : ∀ y, p (f y) = decide (y = x)) :
    ((xs.toList.filter (fun y => y ≠ s)).map f).filter p =
      if x ∈ xs ∧ x ≠ s then [f x] else [] := by
  have hcomp : p ∘ f = fun y => decide (y = x) := funext hp
  rw [List.filter_map, hcomp, List.filter_eq, (xs.nodup.filter _).count]
  simp only [List.mem_filter, HashSet.mem_toList, decide_eq_true_eq]
  split_ifs <;> rfl

lemma Partitioned.pushed (h : n.Partitioned) (g : GossipMessage N I P) :
    ToldOnce n g (n.pushed g) := by
  intro x
  have hdeliver : Action.announces x g.message.id (.deliver g.message : Action N I P) = false := rfl
  rw [Node.pushed, List.filter_cons_of_neg (by simp [hdeliver]), List.filter_append,
    filter_sends (x := x) (by simp [Action.announces]),
    filter_sends (x := x) (by simp [Action.announces])]
  by_cases he : x ∈ n.eagerPushPeers
  · have hl := h.disjoint x he
    simp [he, hl, announcement]
  · simp [he, announcement]

lemma ToldOnce.append {g : GossipMessage N I P} {as bs : List (Action N I P)}
    (h : ToldOnce n g as) (hb : ∀ x, ∀ b ∈ bs, b.announces x g.message.id = false) :
    ToldOnce n g (as ++ bs) := by
  intro x
  have hnil : bs.filter (Action.announces x g.message.id) = [] := by
    refine List.filter_eq_nil_iff.mpr fun b hm => ?_
    rw [hb x b hm]
    exact Bool.false_ne_true
  rw [List.filter_append, hnil, List.append_nil]
  exact h x

/-- The eager and the lazy peers are apart and the node is not among them. A new message from a
peer, or one of the node's own, is announced once to each of the other peers. -/
theorem told_once (h : Run step (withOptions id options choices) tr n) :
    (∀ x ∈ n.eagerPushPeers, x ∉ n.lazyPushPeers) ∧
      n.id ∉ n.eagerPushPeers ∧ n.id ∉ n.lazyPushPeers ∧
      (∀ g : GossipMessage N I P, g.sender ∈ n.neighbours → ¬ n.Holds g.message.id →
        ∃ r, n.operate (.receive (.gossip g)) = .ok r ∧ ToldOnce n g (n.queuedSince r)) ∧
      ∀ msg : Message I P, ∃ r, n.operate (.call (.broadcastMessage msg)) = .ok r ∧
        ToldOnce n ⟨n.id, msg, 0⟩ (n.queuedSince r) := by
  have hp := partitioned_of_run h
  have hself := hp.others
  rw [mem_neighbours, not_or] at hself
  refine ⟨hp.disjoint, hself.1, hself.2, ?_, ?_⟩
  · intro g hs hg
    refine ⟨_, rfl, ?_⟩
    have hk : n.handleProtocolMessage (.gossip g) = (true, n.handleGossip g) :=
      if_pos (isKnownNode_iff.mpr hs)
    have hqueued : n.queuedSince (none, (n.handleProtocolMessage (.gossip g)).2) =
        n.pushed g ++ n.optimizing g := by
      rw [hk, handleGossip_of_fresh hg]
      exact List.drop_left
    rw [hqueued]
    refine (hp.pushed g).append fun x a ha => ?_
    rcases mem_optimizing ha with ⟨d, r, rfl⟩ | rfl
    · rfl
    · rfl
  · intro msg
    refine ⟨_, rfl, ?_⟩
    have hqueued : n.queuedSince (none, n.broadcastMessage msg) = n.pushed ⟨n.id, msg, 0⟩ := by
      rw [broadcastMessage_eq]
      exact List.drop_left
    rw [hqueued]
    exact hp.pushed _

/-- Peer 1 is pruned, then peer 2 sends a message: peer 1 hears of it, peer 3 gets it. -/
def pruned : List (Input ℕ ℕ ℕ) :=
  [.call (.handleNeighborUp 1), .call (.handleNeighborUp 2), .call (.handleNeighborUp 3),
    .receive (.prune ⟨1⟩)]

theorem told_once_pruned : ∃ (n : Node ℕ ℕ ℕ) (tr : List (Taken (Node ℕ ℕ ℕ) (Input ℕ ℕ ℕ))),
    Run step (.new 0 []) tr n ∧
      (∃ r, n.operate (.receive (.gossip ⟨2, ⟨7, 70⟩, 4⟩)) = .ok r ∧
        ToldOnce n ⟨2, ⟨7, 70⟩, 4⟩ (n.queuedSince r)) ∧
      n.announcement ⟨2, ⟨7, 70⟩, 4⟩ 1 = .send 1 (.ihave ⟨0, 7, 5, true⟩) ∧
      n.announcement ⟨2, ⟨7, 70⟩, 4⟩ 3 = .send 3 (.gossip ⟨0, ⟨7, 70⟩, 5⟩) := by
  have hrun : follow step (.new 0 []) pruned = .ok _ := rfl
  obtain ⟨_, _, _, hgossip, _⟩ := told_once (Run.of_follow pruned hrun)
  refine ⟨_, _, Run.of_follow _ hrun, hgossip ⟨2, ⟨7, 70⟩, 4⟩ (by decide) ?_, by decide, by decide⟩
  rintro ⟨p, hp⟩
  cases hp

end Node

end QuicP2p.Plumtree
