import QuicP2p.Plumtree.Sends

/-! How long a node waits for a message that was announced before it asks for it. -/

namespace QuicP2p.Plumtree

open Library

variable {N I P : Type} [DecidableEq N] [DecidableEq I]

namespace MissingMessages

variable {m : MissingMessages N I}

omit [DecidableEq N] in
lemma dueTime_of_new {ihave : IhaveMessage N I} (h : ¬ m.Recorded ihave.messageId) (clock : Clock)
    (timeout : Duration) : m.dueTime ihave clock timeout =
      if ihave.realtime then clock.now else clock.now + timeout := by
  have hnone : m.ihaves.get ihave.messageId = none := by
    rw [Option.eq_none_iff_forall_ne_some]
    exact fun e he => h ⟨e, he⟩
  rw [dueTime, hnone]
  rfl

omit [DecidableEq N] in
lemma get_push {ihave : IhaveMessage N I} {clock : Clock} {timeout : Duration} {i : I}
    {e : IhaveEntry N} (h : (m.push ihave clock timeout).ihaves.get i = some e) :
    (i = ihave.messageId ∧ e.nextExpiryTime = m.dueTime ihave clock timeout + timeout) ∨
      m.ihaves.get i = some e := by
  rcases HashMap.get_insert_eq_some.mp h with ⟨hi, rfl⟩ | ⟨_, h⟩
  · exact .inl ⟨hi, rfl⟩
  · exact .inr h

end MissingMessages

namespace Node

variable {n m k : Node N I P} {i : Input N I P}

lemma handleExpirationLoop_inherits {passes : ℕ} (hn : n.missings.Valid)
    (h : handleExpirationLoop passes n = .ok m) : n.missings.Inherits m.missings := by
  induction passes generalizing n with
  | zero => cases h
  | succ passes ih =>
    obtain ⟨⟨r, k⟩, hk, h⟩ := bind_eq_ok.mp h
    obtain ⟨missings, rfl, hv, _, hi⟩ := (popExpired_spec hn n.clock).of_ok hk
    cases r with
    | none =>
      cases h
      exact hi
    | some ihave =>
      have hrest := ih (by rwa [missings_sendGraft]) h
      rw [missings_sendGraft] at hrest
      exact hi.trans hrest

/-- What an operation does to the table of missing messages, and to the clock. -/
inductive Timed (n : Node N I P) : Input N I P → Node N I P → Prop
  | kept {i : Input N I P} {m : Node N I P} {d : Duration} (hm : m.missings = n.missings)
      (hc : m.clock = n.clock.tick d) : Timed n i m
  | removed {g : GossipMessage N I P} {m : Node N I P}
      (hm : m.missings = n.missings.remove g.message.id) (hc : m.clock = n.clock) :
      Timed n (.receive (.gossip g)) m
  | pushed {h : IhaveMessage N I} {m : Node N I P} (hs : h.sender ∈ n.neighbours)
      (hh : ¬ n.Holds h.messageId) (hm : m.missings = n.missings.push
        { h with realtime := n.eagerPushPeers.isEmpty || h.realtime } n.clock
        n.options.ihaveTimeout) (hc : m.clock = n.clock) : Timed n (.receive (.ihave h)) m
  | expired {spent : List (NodeTime × IhaveMessage N I)} {m k : Node N I P} (hd : Drained n k spent)
      (hspent : ∀ a ∈ spent, a.1 ≤ n.clock.now) (hi : n.missings.Inherits k.missings)
      (hm : m.missings = k.missings) (hc : m.clock = n.clock) : Timed n .pollAction m
  | down {x : N} {m : Node N I P} (hc : m.clock = n.clock) :
      Timed n (.call (.handleNeighborDown x)) m

lemma Timed.same {i : Input N I P} (hm : m.missings = n.missings) (hc : m.clock = n.clock) :
    Timed n i m := .kept (d := 0) hm (by simp [hc, Clock.tick])

lemma perform_timed (hn : n.missings.Valid) (c : Call N I P) :
    Yields (n.perform c) (fun m => Timed n (.call c) m ∧
      ((∀ o, c ≠ .optionsMut o) → m.options = n.options)) := by
  cases c with
  | broadcastMessage msg =>
    refine .ok ⟨.same ?_ ?_, fun _ => ?_⟩
    · rw [broadcastMessage_eq]
    · rw [broadcastMessage_eq]
    · rw [broadcastMessage_eq]
  | forgetMessage i => exact .ok ⟨.same rfl rfl, fun _ => rfl⟩
  | handleNeighborUp x =>
    by_cases hk : x ∈ n.neighbours ∨ n.id = x
    · have hsame : n.handleNeighborUp x = n := by
        rw [handleNeighborUp, if_pos (by rwa [isKnownNode_iff])]
      exact ⟨n, congrArg Except.ok hsame, .same rfl rfl, fun _ => rfl⟩
    · rw [not_or] at hk
      refine ⟨_, congrArg Except.ok (handleNeighborUp_of_new hk.1 hk.2), .same rfl rfl,
        fun _ => rfl⟩
  | handleNeighborDown x =>
    refine (handleNeighborDown_spec hn x).mono fun m hm => ?_
    cases hm with
    | unknown _ => exact ⟨.down rfl, fun _ => rfl⟩
    | eager _ _ => exact ⟨.down rfl, fun _ => rfl⟩
    | grafted _ hk =>
      obtain ⟨_, _, hk⟩ := hk.drained
      exact ⟨.down hk.clock_eq, fun _ => hk.options_eq⟩
  | tick d => exact .ok ⟨.kept rfl rfl, fun _ => rfl⟩
  | reorder i j => exact .ok ⟨.same rfl rfl, fun _ => rfl⟩
  | optionsMut o => exact .ok ⟨.same rfl rfl, fun hc => absurd rfl (hc o)⟩

lemma receive_timed (n : Node N I P) (msg : ProtocolMessage N I P) :
    Timed n (.receive msg) (n.handleProtocolMessage msg).2 ∧
      (n.handleProtocolMessage msg).2.options = n.options := by
  by_cases hs : msg.sender ∈ n.neighbours
  · rw [handleProtocolMessage.eq_def, if_pos (isKnownNode_iff.mpr hs)]
    cases msg with
    | gossip g =>
      dsimp only
      by_cases h : n.Holds g.message.id
      · rw [handleGossip_of_holds h]
        exact ⟨.same rfl rfl, rfl⟩
      · rw [handleGossip_of_fresh h]
        exact ⟨.removed rfl rfl, rfl⟩
    | ihave h =>
      dsimp only [handleIhave]
      split
      next => exact ⟨.same rfl rfl, rfl⟩
      next hh =>
        refine ⟨.pushed hs (mt HashMap.containsKey_iff.mpr hh) ?_ rfl, rfl⟩
        cases he : n.eagerPushPeers.isEmpty
        · rfl
        · rfl
    | graft g =>
      dsimp only [handleGraft]
      split
      · split
        · exact ⟨.same rfl rfl, rfl⟩
        · exact ⟨.same rfl rfl, rfl⟩
      · exact ⟨.same rfl rfl, rfl⟩
    | prune p => exact ⟨.same rfl rfl, rfl⟩
  · rw [handleProtocolMessage_unknown hs]
    exact ⟨.same rfl rfl, rfl⟩

lemma operate_timed (hn : n.missings.Valid) (i : Input N I P) :
    Yields (n.operate i) (fun r => Timed n i r.2 ∧
      ((∀ o, i ≠ .call (.optionsMut o)) → r.2.options = n.options)) := by
  cases i with
  | call c =>
    refine (perform_timed hn c).bind ?_
    rintro m ⟨hm, ho⟩
    exact .ok ⟨hm, fun hi => ho fun o hc => hi o (by rw [hc])⟩
  | receive msg =>
    obtain ⟨hm, ho⟩ := receive_timed n msg
    exact .ok ⟨hm, fun _ => ho⟩
  | pollAction =>
    obtain ⟨k, hk, ⟨spent, hd, hspent⟩, _⟩ := handleExpiration_spec hn
    refine ⟨(k.actions.head?, { k with actions := k.actions.tail }), ?_, ?_, fun _ => hd.options_eq⟩
    · rw [operate, pollAction, hk]
      rfl
    · exact .expired hd hspent (handleExpirationLoop_inherits hn hk) rfl hd.clock_eq

/-- A first announcement of the message, which is due at once. -/
def Hasty (n : Node N I P) (j : I) : Input N I P → Prop
  | .receive (.ihave h) =>
    h.messageId = j ∧ h.sender ∈ n.neighbours ∧ ¬ n.Holds j ∧ ¬ n.missings.Recorded j ∧
      (h.realtime = true ∨ n.eagerPushPeers.isEmpty = true)
  | _ => False

/-- No announcement of the message is due before the time `due`, nor will be. -/
structure Patient (j : I) (timeout : Duration) (due : NodeTime) (n : Node N I P) : Prop where
  valid : n.missings.Valid
  timeout_eq : n.options.ihaveTimeout = timeout
  waiting : ∀ a ∈ n.missings.waiting, a.2.messageId = j → due ≤ a.1
  entry : ∀ e, n.missings.ihaves.get j = some e → due ≤ e.nextExpiryTime
  clock : due ≤ n.clock.now + timeout

variable {j : I} {timeout : Duration} {due : NodeTime}

omit [DecidableEq N] in
/-- An announcement that is not due at once is due after a timeout at least. -/
lemma Patient.pushed (h : Patient j timeout due n) {ihave : IhaveMessage N I}
    (hv : m.missings.Valid) (ho : m.options = n.options)
    (hm : m.missings = n.missings.push ihave n.clock n.options.ihaveTimeout)
    (hc : m.clock = n.clock)
    (hi : ihave.messageId = j → n.missings.Recorded j ∨ ihave.realtime = false) :
    Patient j timeout due m := by
  have hdue : ihave.messageId = j → due ≤ n.missings.dueTime ihave n.clock timeout := by
    rintro rfl
    by_cases hr : n.missings.Recorded ihave.messageId
    · obtain ⟨e, he⟩ := hr
      rw [MissingMessages.dueTime, he]
      exact h.entry e he
    · rw [MissingMessages.dueTime_of_new hr, (hi rfl).resolve_left hr]
      exact h.clock
  have hw := (MissingMessages.push_spec h.valid ihave n.clock n.options.ihaveTimeout).2
  rw [← hm] at hw
  refine ⟨hv, ho ▸ h.timeout_eq, fun a ha haj => ?_, fun e he => ?_, hc ▸ h.clock⟩
  · rw [hw] at ha
    rcases Multiset.mem_cons.mp ha with rfl | ha
    · rw [h.timeout_eq]
      exact hdue haj
    · exact h.waiting a ha haj
  · rw [hm] at he
    rcases MissingMessages.get_push he with ⟨rfl, hnext⟩ | he
    · rw [hnext, h.timeout_eq]
      exact (hdue rfl).trans le_self_add
    · exact h.entry e he

lemma Patient.timed (h : Patient j timeout due n) (ht : Timed n i m) (hv : m.missings.Valid)
    (ho : m.options = n.options) (hi : ¬ n.Hasty j i)
    (hd : ∀ x, i ≠ .call (.handleNeighborDown x)) : Patient j timeout due m := by
  cases ht with
  | kept hm hc =>
    have hle : n.clock.now ≤ m.clock.now := hc ▸ le_self_add
    exact ⟨hv, ho ▸ h.timeout_eq, hm ▸ h.waiting, hm ▸ h.entry,
      h.clock.trans (add_le_add_left hle _)⟩
  | @removed g _ hm hc =>
    refine ⟨hv, ho ▸ h.timeout_eq, fun a ha => ?_, fun e he => ?_, hc ▸ h.clock⟩
    · rw [hm, (MissingMessages.remove_spec h.valid g.message.id).2] at ha
      exact h.waiting a (Multiset.mem_filter.mp ha).1
    · rw [hm] at he
      obtain ⟨e', he', hnext⟩ := MissingMessages.inherits_remove _ j e he
      exact hnext ▸ h.entry e' he'
  | @pushed ihave _ hs hh hm hc =>
    refine h.pushed hv ho hm hc fun hj => ?_
    by_cases hr : n.missings.Recorded j
    · exact .inl hr
    · right
      have hboth := not_or.mp fun hreal => hi ⟨hj, hs, hj ▸ hh, hr, hreal⟩
      simpa [and_comm] using hboth
  | @expired spent _ k hdrain hspent hinherits hm hc =>
    refine ⟨hv, ho ▸ h.timeout_eq, fun a ha => ?_, fun e he => ?_, hc ▸ h.clock⟩
    · rw [hm] at ha
      exact h.waiting a (hdrain.waiting_eq ▸ Multiset.mem_add.mpr (.inr ha))
    · obtain ⟨e', he', hnext⟩ := hinherits j e (hm ▸ he)
      exact hnext ▸ h.entry e' he'
  | down => exact absurd rfl (hd _)

lemma pollAction_grafts (hn : n.missings.Valid) : Yields n.pollAction (fun r =>
    ∃ spent k, Drained n k spent ∧ (∀ a ∈ spent, a.1 ≤ n.clock.now) ∧
      (∀ a ∈ k.missings.waiting, n.clock.now < a.1) ∧ n.queuedSince r = n.grafts spent) := by
  refine (handleExpiration_spec hn).bind ?_
  rintro k ⟨⟨spent, hk, hspent⟩, hlate⟩
  refine .ok ⟨spent, k, hk, hspent, hlate, ?_⟩
  have hqueue : k.actions.head?.toList ++ k.actions.tail = n.actions ++ n.grafts spent := by
    rw [← hk.actions_eq]
    cases k.actions <;> rfl
  rw [queuedSince, hqueue, List.drop_left]

lemma Patient.polled (h : Patient j timeout due n) (hnow : n.clock.now < due)
    {r : Option (Action N I P) × Node N I P} (hr : n.pollAction = .ok r) {d : N}
    {g : GraftMessage N I} (hg : .send d (.graft g) ∈ n.queuedSince r) : g.messageId ≠ some j := by
  obtain ⟨spent, k, hk, hspent, _, hqueued⟩ := (pollAction_grafts h.valid).of_ok hr
  rw [hqueued] at hg
  obtain ⟨a, ha, _, he⟩ := mem_grafts.mp hg
  cases he
  intro hj
  have hmem : a ∈ n.missings.waiting := hk.waiting_eq ▸ Multiset.mem_add.mpr (.inl ha)
  have hdue := h.waiting a hmem (Option.some.inj hj)
  exact absurd (hdue.trans (hspent a ha)) (not_le.mpr hnow)

variable {id : N} {options : NodeOptions} {choices : List ℕ}
  {tr : List (Taken (Node N I P) (Input N I P))}

lemma Patient.run (h : Patient j timeout due n) (hrun : Run step n tr m)
    (hc : ∀ e ∈ tr, (∀ x, e.input ≠ .call (.handleNeighborDown x)) ∧
      (∀ o, e.input ≠ .call (.optionsMut o)) ∧ ¬ e.before.Hasty j e.input) :
    Patient j timeout due m := by
  refine hrun.invariant_of (P := Patient j timeout due)
    (C := fun e => (∀ x, e.input ≠ .call (.handleNeighborDown x)) ∧
      (∀ o, e.input ≠ .call (.optionsMut o)) ∧ ¬ e.before.Hasty j e.input) ?_ h hc
  rintro n i m hn hs ⟨hd, hkept, hi⟩
  obtain ⟨r, hr, hs⟩ := bind_eq_ok.mp hs
  cases hs
  obtain ⟨_, hp⟩ := (operate_posted hn.valid i).of_ok hr
  obtain ⟨ht, ho⟩ := (operate_timed hn.valid i).of_ok hr
  exact hn.timed ht hp.valid (ho hkept) hi hd

lemma now_of_run (h : Run step (withOptions id options choices) tr n) : n.clock.now ≠ ⊤ := by
  have hrun : n.missings.Valid ∧ n.clock.now ≠ ⊤ := by
    refine h.invariant (P := fun m => m.missings.Valid ∧ m.clock.now ≠ ⊤) ?_
      ⟨MissingMessages.new_valid choices, WithTop.zero_ne_top⟩
    rintro n i m ⟨hv, hc⟩ hs
    obtain ⟨r, hr, hs⟩ := bind_eq_ok.mp hs
    cases hs
    obtain ⟨_, hp⟩ := (operate_posted hv i).of_ok hr
    obtain ⟨ht, _⟩ := (operate_timed hv i).of_ok hr
    refine ⟨hp.valid, ?_⟩
    cases ht with
    | @kept _ _ d _ hc' =>
      rw [hc']
      exact WithTop.add_ne_top.mpr ⟨hc, WithTop.natCast_ne_top d⟩
    | removed _ hc' => exact hc' ▸ hc
    | pushed _ _ _ hc' => exact hc' ▸ hc
    | expired _ _ _ _ hc' => exact hc' ▸ hc
    | down hc' => exact hc' ▸ hc
  exact hrun.2

lemma handleIhave_of_fresh {h : IhaveMessage N I} (hs : h.sender ∈ n.neighbours)
    (hh : ¬ n.Holds h.messageId) (he : n.eagerPushPeers.isEmpty = false) :
    (n.handleProtocolMessage (.ihave h)).2 =
      { n with missings := n.missings.push h n.clock n.options.ihaveTimeout } := by
  have hk : n.isKnownNode (ProtocolMessage.ihave h : ProtocolMessage N I P).sender = true :=
    isKnownNode_iff.mpr hs
  rw [handleProtocolMessage.eq_def, if_pos hk]
  simp only [handleIhave, if_neg (mt HashMap.containsKey_iff.mp hh), he, Bool.false_eq_true,
    if_false]

omit [DecidableEq N] in
lemma patient_of_first (hn : n.missings.Valid) {h : IhaveMessage N I}
    (hr : ¬ n.missings.Recorded h.messageId) (hm : m.options = n.options) (hc : m.clock = n.clock)
    (hp : m.missings = n.missings.push h n.clock n.options.ihaveTimeout)
    (hlate : h.realtime = false ∨ n.options.ihaveTimeout = 0) :
    Patient h.messageId n.options.ihaveTimeout (n.clock.now + n.options.ihaveTimeout) m := by
  obtain ⟨hpv, hpw⟩ := MissingMessages.push_spec hn h n.clock n.options.ihaveTimeout
  have hdue : n.missings.dueTime h n.clock n.options.ihaveTimeout =
      n.clock.now + n.options.ihaveTimeout := by
    rw [MissingMessages.dueTime_of_new hr]
    rcases hlate with hlate | hlate
    · simp [hlate]
    · simp [hlate]
  refine ⟨hp ▸ hpv, congrArg NodeOptions.ihaveTimeout hm, fun a ha haj => ?_, fun e he => ?_,
    by rw [hc]⟩
  · rw [hp, hpw] at ha
    rcases Multiset.mem_cons.mp ha with rfl | ha
    · exact hdue.ge
    · exact absurd (haj ▸ MissingMessages.waiting_recorded ha) hr
  · rw [hp] at he
    rcases MissingMessages.get_push he with ⟨_, hnext⟩ | he
    · rw [hnext, hdue]
      exact le_self_add
    · exact absurd ⟨e, he⟩ hr

lemma grafted_at_once (hn : n.missings.Valid) {h : IhaveMessage N I} (hs : h.sender ∈ n.neighbours)
    (hr : ¬ n.missings.Recorded h.messageId) (hreal : h.realtime = true) :
    Yields ({ n with missings := n.missings.push h n.clock n.options.ihaveTimeout } :
        Node N I P).pollAction (fun r =>
      .send h.sender (.graft ⟨n.id, some h.messageId, h.round⟩) ∈ queuedSince
        { n with missings := n.missings.push h n.clock n.options.ihaveTimeout } r) := by
  obtain ⟨hpv, hpw⟩ := MissingMessages.push_spec hn h n.clock n.options.ihaveTimeout
  have hdue : n.missings.dueTime h n.clock n.options.ihaveTimeout = n.clock.now := by
    rw [MissingMessages.dueTime_of_new hr, if_pos hreal]
  refine (pollAction_grafts (n := { n with
    missings := n.missings.push h n.clock n.options.ihaveTimeout }) hpv).mono ?_
  rintro r ⟨spent, k, hk, _, hlate, hqueued⟩
  have hmem : (n.clock.now, h) ∈ (spent : Multiset (NodeTime × IhaveMessage N I)) +
      k.missings.waiting := by
    rw [← hk.waiting_eq]
    change _ ∈ (n.missings.push h n.clock n.options.ihaveTimeout).waiting
    rw [hpw, ← hdue]
    exact Multiset.mem_cons_self _ _
  rw [hqueued]
  rcases Multiset.mem_add.mp hmem with hmem | hmem
  · exact mem_grafts.mpr ⟨_, hmem, hs, rfl⟩
  · exact absurd (hlate _ hmem) (lt_irrefl _)

/-- After the first announcement of a message, while no peer goes down and the options stay, a poll
asks for the message only after the timeout: exactly if the announcement was not marked as one in
real time. -/
theorem grafts_wait_iff (h₀ : Run step (withOptions id options choices) tr n)
    {h : IhaveMessage N I} (hs : h.sender ∈ n.neighbours) (hh : ¬ n.Holds h.messageId)
    (hr : ¬ n.missings.Recorded h.messageId) (he : n.eagerPushPeers.isEmpty = false) :
    (∀ tr' n', Run step (n.handleProtocolMessage (.ihave h)).2 tr' n' →
      (∀ e ∈ tr', (∀ x, e.input ≠ .call (.handleNeighborDown x)) ∧
        (∀ o, e.input ≠ .call (.optionsMut o)) ∧ ¬ e.before.Hasty h.messageId e.input) →
      n'.clock.now < n.clock.now + n.options.ihaveTimeout →
      ∀ r, n'.pollAction = .ok r → ∀ d g, .send d (.graft g) ∈ n'.queuedSince r →
        g.messageId ≠ some h.messageId) ↔
      h.realtime = false ∨ n.options.ihaveTimeout = 0 := by
  have hnow := now_of_run h₀
  have hv := valid_of_run h₀
  rw [handleIhave_of_fresh hs hh he]
  constructor
  · intro hall
    by_contra hno
    obtain ⟨hreal, hpos⟩ := not_or.mp hno
    obtain ⟨r, hpoll, hsent⟩ := grafted_at_once hv hs hr (by simpa using hreal)
    have hlt : n.clock.now < n.clock.now + n.options.ihaveTimeout := by
      obtain ⟨t, ht⟩ := WithTop.ne_top_iff_exists.mp hnow
      rw [← ht]
      exact WithTop.coe_lt_coe.mpr (Nat.lt_add_of_pos_right (Nat.pos_of_ne_zero hpos))
    exact hall [] _ .start (by simp) hlt r hpoll _ _ hsent rfl
  · intro hlate tr' n' hrun hc hlt r hpoll d g hg
    have hpatient := patient_of_first (m := { n with
      missings := n.missings.push h n.clock n.options.ihaveTimeout }) hv hr rfl rfl rfl hlate
    exact (hpatient.run hrun hc).polled hlt hpoll hg

/-- A node with two peers. -/
def accompanied : List (Input ℕ ℕ ℕ) :=
  [.call (.handleNeighborUp 1), .call (.handleNeighborUp 2)]

theorem grafts_wait_iff_accompanied : ∃ (n : Node ℕ ℕ ℕ)
    (tr : List (Taken (Node ℕ ℕ ℕ) (Input ℕ ℕ ℕ))), Run step (.new 0 []) tr n ∧
      ∀ tr' n', Run step (n.handleProtocolMessage (.ihave ⟨1, 7, 0, false⟩)).2 tr' n' →
        (∀ e ∈ tr', (∀ x, e.input ≠ .call (.handleNeighborDown x)) ∧
          (∀ o, e.input ≠ .call (.optionsMut o)) ∧ ¬ e.before.Hasty 7 e.input) →
        n'.clock.now < n.clock.now + (500000000 : ℕ) → ∀ r, n'.pollAction = .ok r →
        ∀ d g, .send d (.graft g) ∈ n'.queuedSince r → g.messageId ≠ some 7 := by
  have hrun : follow step (.new 0 []) accompanied = .ok _ := rfl
  refine ⟨_, _, Run.of_follow accompanied hrun, ?_⟩
  refine (grafts_wait_iff (Run.of_follow accompanied hrun) (h := ⟨1, 7, 0, false⟩) (by decide)
    ?_ ?_ rfl).mpr (.inl rfl)
  · rintro ⟨_, hp⟩
    cases hp
  · rintro ⟨_, he⟩
    cases he

/-- Peer 1 announces a message in real time: it is asked for the message at the next poll, half a
second early. -/
theorem grafted_early : ∃ (n : Node ℕ ℕ ℕ)
    (tr : List (Taken (Node ℕ ℕ ℕ) (Input ℕ ℕ ℕ))), Run step (.new 0 []) tr n ∧
      n.eagerPushPeers.isEmpty = false ∧ n.options.ihaveTimeout = 500000000 ∧
      ∃ r, (n.handleProtocolMessage (.ihave ⟨1, 7, 0, true⟩)).2.pollAction = .ok r ∧
        (n.handleProtocolMessage (.ihave ⟨1, 7, 0, true⟩)).2.clock = n.clock ∧
        .send 1 (.graft ⟨0, some 7, 0⟩) ∈
          (n.handleProtocolMessage (.ihave ⟨1, 7, 0, true⟩)).2.queuedSince r := by
  have hrun : follow step (.new 0 []) accompanied = .ok _ := rfl
  exact ⟨_, _, Run.of_follow accompanied hrun, rfl, rfl, _, rfl, rfl, by decide⟩

end Node

end QuicP2p.Plumtree
