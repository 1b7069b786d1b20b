import QuicP2p.P2p.Draining

/-! What becomes of a node that leaves: its active view empties, but its backups are asked to
replace the neighbours. -/

namespace QuicP2p.P2p

open Library

variable {K A M R : Type}

/-- The call sends a `JOIN` or a `NEIGHBOR`. -/
def ServerCall.Solicits : ServerCall K A M → Prop
  | .sendProtocolMessageSync _ (.hyparview (.join _)) => True
  | .sendProtocolMessageSync _ (.hyparview (.neighbor _)) => True
  | .sendProtocolMessage _ (.hyparview (.join _)) => True
  | .sendProtocolMessage _ (.hyparview (.neighbor _)) => True
  | _ => False

/-- The message that a call queues to the local node. -/
def ServerCall.toSelf : ServerCall K A M → Option (P2pNodeProtocolMessage K A M)
  | .notifySelfDisconnect destination => some (.hyparview (.disconnect ⟨destination, false⟩))
  | _ => none

variable [DecidableEq K] [DecidableEq A] [Rng R]

namespace Session

variable {s t s₀ : Session K A M R} {i : Input K A M} {n m : P2PNode K A M R}
  {hv₀ hv hv' : HyparviewNode K A R}

/-- The HyParView node can be reached from `hv₀` by calls and polls of its own. -/
def Within (hv₀ hv : HyparviewNode K A R) : Prop := ∃ tr, Run Hyparview.Node.step hv₀ tr hv

lemma Within.perform (h : Within hv₀ hv) (op : Hyparview.Operation (NodeId K A))
    (hp : hv.perform op = .ok hv') : Within hv₀ hv' := by
  obtain ⟨tr, hr⟩ := h
  exact ⟨_, hr.next (i := Hyparview.Node.Input.call op) hp⟩

lemma Within.poll (h : Within hv₀ hv) : Within hv₀ hv.pollAction.2 := by
  obtain ⟨tr, hr⟩ := h
  exact ⟨_, hr.next (i := Hyparview.Node.Input.pollAction) rfl⟩

lemma Within.tick (h : Within hv₀ n.hyparviewNode) {draws : Draws}
    (ht : n.handleTick draws = .ok m) : Within hv₀ m.hyparviewNode := by
  obtain ⟨h₁, h₂, h₃, _, _, _, hshuffle, hsync, hfill, rfl⟩ := P2PNode.handleTick_ok ht
  have hw₁ : Within hv₀ h₁ := by
    rcases P2PNode.whenDue_ok hshuffle with rfl | hshuffle
    · exact h
    · exact h.perform .shufflePassiveView hshuffle
  have hw₂ : Within hv₀ h₂ := by
    rcases P2PNode.whenDue_ok hsync with rfl | hsync
    · exact hw₁
    · exact hw₁.perform .syncActiveView hsync
  rcases P2PNode.whenDue_ok hfill with rfl | hfill
  · exact hw₂
  · exact hw₂.perform .fillActiveView hfill

omit [DecidableEq K] [DecidableEq A] [Rng R] in
lemma node_found {stage : Stage} {r : Option (PlumtreeAppMessage K A M) × P2PNode K A M R} :
    (s.found stage r).node = r.2 := by
  obtain ⟨_ | _, _⟩ := r
  · rfl
  · rfl

omit [DecidableEq K] [DecidableEq A] [Rng R] in
lemma hyparviewNode_search {now : WallClock}
    {r : Option (PlumtreeAppMessage K A M) × P2PNode K A M R}
    (h : n.processSequentialMessages now = .ok r) : r.2.hyparviewNode = n.hyparviewNode := by
  obtain ⟨⟨_, _, hr⟩, _⟩ := (processSequentialMessages_spec n now).of_ok h
  rw [hr]

/-- Within a session, HyParView does nothing but what its own operations do. -/
lemma Within.step (h : Within hv₀ s.node.hyparviewNode) (hs : s.step i = .ok t) :
    Within hv₀ t.node.hyparviewNode := by
  cases stepped_of_step hs with
  | refused => exact h
  | @joined c => exact h.perform (.join c) rfl
  | broadcast _ hb =>
    obtain ⟨_, _, _, rfl⟩ := P2PNode.broadcast_ok hb
    exact h
  | left =>
    rw [P2PNode.leave_eq]
    exact h
  | arrived => exact h
  | reordered => exact h
  | polled => exact h
  | ticked _ ht => exact h.tick ht
  | @acted b receive now a rest n _ ha hn =>
    have hpoll : Within hv₀ { s.node.hyparviewNode with actions := rest } := by
      have hp := h.poll
      rwa [Hyparview.Node.pollAction, ha] at hp
    have hre := (P2PNode.handleHyparviewAction_ok hn).1
    cases a with
    | disconnect x => exact hpoll.perform (.disconnect x false) hre
    | _ => exact Except.ok.inj hre ▸ hpoll
  | drained => exact h
  | searched _ hr =>
    rw [node_found, hyparviewNode_search hr]
    exact h
  | @executed b receive now a p r _ ha hr =>
    have hkept : r.2.hyparviewNode = s.node.hyparviewNode := by
      cases a with
      | send d msg =>
        cases hr
        rfl
      | deliver m =>
        have hsearch := hyparviewNode_search hr
        exact hsearch
    change Within hv₀ (s.found (.plumtree true) r).node.hyparviewNode
    rw [node_found, hkept]
    exact h
  | exhausted => exact h
  | @received b stop receive now msg rest n _ _ hn =>
    cases msg with
    | hyparview msg =>
      obtain ⟨hv, hx, hn⟩ := bind_eq_ok.mp hn
      cases hn
      exact h.perform (.handleProtocolMessage msg) hx
    | plumtree msg =>
      cases hn
      exact h
    | plumtreeStream msg => cases hn
  | ended => exact h

lemma options_of_run {tr : List (Taken (Session K A M R) (Input K A M))} {nodeId : NodeId K A}
    {rng : R} {draws : Draws} {choices : List ℕ}
    (h₀ : Session.new nodeId rng draws choices = .ok s₀) (h : Run step s₀ tr s) :
    s.node.hyparviewNode.options = {} := by
  have hstart : s₀.node.hyparviewNode = .withOptions nodeId rng {} := by
    obtain ⟨_, _, _, rfl⟩ := new_ok h₀
    rfl
  have hw : Within (.withOptions nodeId rng {}) s.node.hyparviewNode :=
    h.invariant (P := fun s => Within (.withOptions nodeId rng {}) s.node.hyparviewNode)
      (fun _ _ _ hw hs => hw.step hs) ⟨[], hstart ▸ .start⟩
  obtain ⟨tr', hr⟩ := hw
  exact (Hyparview.Node.run_spec (by decide) (by decide) hr).2.2

end Session

namespace P2PNode

variable {n m : P2PNode K A M R}

lemma drainHyparview_sparing (h : n.Coherent) (hs : Sparing n.hyparviewNode) {passes : ℕ}
    (hp : n.hyparviewNode.actions.length ≤ passes) :
    Yields (n.drainHyparview passes) (fun m => m.Coherent ∧
      m.hyparviewNode = { n.hyparviewNode with actions := [] } ∧
      m.server = n.server ++ n.hyparviewNode.actions.flatMap callOf) := by
  induction passes generalizing n with
  | zero =>
    have hnil : n.hyparviewNode.actions = [] := List.eq_nil_of_length_eq_zero (Nat.le_zero.mp hp)
    refine .ok ⟨h, ?_, by simp [hnil]⟩
    rw [← hnil]
  | succ passes ih =>
    cases ha : n.hyparviewNode.actions with
    | nil =>
      refine ⟨n, drainHyparview_nil _ ha, h, ?_, by simp⟩
      rw [← ha]
    | cons a rest =>
      obtain ⟨k, hk, hc⟩ := h.handleHyparviewAction ha
      obtain ⟨hre, hserver⟩ := handleHyparviewAction_ok hk
      have hpopped : k.hyparviewNode = { n.hyparviewNode with actions := rest } := by
        cases a with
        | disconnect x =>
          have hx : x ∉ n.hyparviewNode.activeView := hs x (ha ▸ List.mem_cons_self)
          have he := Hyparview.Node.disconnect_of_absent
            (n := { n.hyparviewNode with actions := rest }) hx
          exact (Except.ok.inj (he.symm.trans hre)).symm
        | _ => exact (Except.ok.inj hre).symm
      have hsk : Sparing k.hyparviewNode := by
        rw [hpopped]
        exact fun x hx => hs x (ha ▸ List.mem_cons_of_mem _ hx)
      have hlen : k.hyparviewNode.actions.length ≤ passes := by
        rw [ha, List.length_cons] at hp
        rw [hpopped]
        exact Nat.le_of_succ_le_succ hp
      rw [drainHyparview_cons passes ha, hk, ok_bind]
      refine (ih hc hsk hlen).mono ?_
      rintro m ⟨hm, hv, hcalls⟩
      refine ⟨hm, hv.trans (by rw [hpopped]), ?_⟩
      rw [hcalls, hserver, hpopped, List.flatMap_cons, List.append_assoc]

/-- Handle some messages, draining the queues after each. -/
def takeInEach (passes : ℕ) (clock : List (WallClock × WallClock)) :
    List (P2pNodeProtocolMessage K A M) → P2PNode K A M R → Exec (P2PNode K A M R)
  | [], n => .ok n
  | message :: messages, n => do
    let n ← n.takeIn message passes clock
    takeInEach passes clock messages n

/-- The calls on the server between two states of a node. -/
def callsSince (n m : P2PNode K A M R) : List (ServerCall K A M) := m.server.drop n.server.length

/-- The message by which a node tells itself that a neighbour is lost. -/
def lost (x : NodeId K A) : P2pNodeProtocolMessage K A M := .hyparview (.disconnect ⟨x, false⟩)

omit [DecidableEq K] [DecidableEq A] [Rng R] in
lemma leave_toSelf (n : P2PNode K A M R) :
    (n.callsSince n.leave).filterMap ServerCall.toSelf = n.hyparviewNode.activeView.map lost := by
  rw [leave_eq, callsSince, List.drop_left]
  induction n.hyparviewNode.activeView with
  | nil => rfl
  | cons x xs ih =>
    rw [List.flatMap_cons, List.filterMap_append, ih]
    rfl

omit [DecidableEq K] [DecidableEq A] [Rng R] in
lemma filled_of_lost {hv k : HyparviewNode K A R} {x : NodeId K A} {v q : List (NodeId K A)} {g : R}
    (hw : hv.WellFormed) (ha : hv.actions = []) (ho : hv.options = {})
    (hperm : hv.activeView.Perm (x :: v)) (hq : Hyparview.Node.Spared hv q)
    (hk : Hyparview.Node.Filled { hv.departed v x false with passiveView := q, rng := g } k) :
    k.actions.length ≤ 3 ∧ k.options = {} ∧ k.activeView = v ∧
      (k.passiveView = [] ↔ hv.passiveView = []) ∧
      ((∃ c ∈ (k.actions.flatMap callOf : List (ServerCall K A M)), c.Solicits) ↔
        hv.passiveView ≠ []) := by
  have hempty : q = [] ↔ hv.passiveView = [] := by
    cases hq with
    | room _ hq =>
      rw [← List.length_eq_zero_iff, ← List.length_eq_zero_iff, hq.length_eq]
    | @evicted z hf hq =>
      -- a full passive view has 24 members, of which one makes room
      have hfull := Hyparview.Node.passive_full_iff.mp hf
      have hlen := hq.length_eq
      have hmax : hv.options.maxPassiveViewSize.toNat = 24 := by rw [ho]; rfl
      rw [List.length_cons] at hlen
      rw [← List.length_eq_zero_iff, ← List.length_eq_zero_iff]
      omega
  have hdeparted : (hv.departed v x false).actions =
      [.disconnect x, .notify (.neighborDown x)] := by
    rw [Hyparview.Node.departed, ha]
    rfl
  obtain ⟨hka, hkp, hko, _⟩ := hk.views
  refine ⟨?_, hko.trans ho, hka, by rw [hkp]; exact hempty, ?_⟩
  · cases hk with
    | idle => simp [hdeparted]
    | asked => simp [hdeparted, Hyparview.Node.send, Hyparview.Node.pushBack]
  · rw [ne_eq, ← hempty]
    cases hk with
    | idle hidle =>
      have hq' : q = [] := by
        refine hidle.resolve_left fun hf => ?_
        have hfull := Hyparview.Node.active_full_iff.mp hf
        have hle := hw.active_le
        have hlen := hperm.length_eq
        simp only [List.length_cons, Hyparview.Node.departed] at hlen hfull
        omega
      simp [hdeparted, hq', callOf, ServerCall.Solicits]
    | @asked y g hf hy =>
      have hq' : q ≠ [] := List.ne_nil_of_mem hy
      simp [hdeparted, hq', callOf, Hyparview.Node.send, Hyparview.Node.pushBack,
        ServerCall.Solicits]

/-- A neighbour is lost: a backup is asked to take its place, if there is any. -/
lemma takeIn_lost (h : n.Coherent) (ha : n.hyparviewNode.actions = [])
    (ho : n.hyparviewNode.options = {}) {x : NodeId K A} (hx : x ∈ n.hyparviewNode.activeView)
    {passes : ℕ} (hp : 3 ≤ passes) (clock : List (WallClock × WallClock)) :
    Yields (n.takeIn (lost x) passes clock) (fun m => m.Coherent ∧ m.hyparviewNode.actions = [] ∧
      m.hyparviewNode.options = {} ∧
      n.hyparviewNode.activeView.Perm (x :: m.hyparviewNode.activeView) ∧
      (m.hyparviewNode.passiveView = [] ↔ n.hyparviewNode.passiveView = []) ∧
      ∃ calls, m.server = n.server ++ calls ∧
        ((∃ c ∈ calls, c.Solicits) ↔ n.hyparviewNode.passiveView ≠ [])) := by
  obtain ⟨k, hhandle, v, q, g, k', hperm, hq, hk, he⟩ :=
    Hyparview.Node.handleDisconnect_present h.wellFormed hx false
  obtain rfl : k = k' := he
  have hevolves := ((Hyparview.Node.handleDisconnect_spec h.wellFormed ⟨x, false⟩).of_ok hhandle).1
  obtain ⟨hlen, hopt, hview, hpassive, hcalls⟩ :=
    filled_of_lost (M := M) h.wellFormed ha ho hperm hq hk
  have hm : n.handleP2pnodeProtocolMessage (lost x) =
      .ok (true, { n with hyparviewNode := k }) := by
    rw [lost, handleP2pnodeProtocolMessage, Hyparview.Node.handleProtocolMessage, hhandle]
    rfl
  obtain ⟨l, hl, hlc, hlv, hls⟩ := drainHyparview_sparing (h.evolve hevolves)
    (.of_evolves ha hevolves) (hlen.trans hp)
  obtain ⟨m, hmk, hmc, hmv, _, calls, hms, hplum⟩ := drainPlumtree_spec hlc clock
  refine ⟨m, ?_, hmc, ?_, ?_, ?_, ?_, k.actions.flatMap callOf ++ calls, ?_, ?_⟩
  · rw [takeIn_bind hm, hl, ok_bind, hmk]
  · rw [hmv, hlv]
  · rw [hmv, hlv]
    exact hopt
  · rw [hmv, hlv, hview]
    exact hperm
  · rw [hmv, hlv]
    exact hpassive
  · rw [hms, hls, List.append_assoc]
  · rw [← hcalls]
    constructor
    · rintro ⟨c, hc, hsol⟩
      rcases List.mem_append.mp hc with hc | hc
      · exact ⟨c, hc, hsol⟩
      · obtain ⟨d, msg, rfl⟩ := hplum c hc
        exact hsol.elim
    · rintro ⟨c, hc, hsol⟩
      exact ⟨c, List.mem_append_left _ hc, hsol⟩

/-- The run lemma: one neighbour after the other is lost. -/
lemma takeInEach_lost (h : n.Coherent) (ha : n.hyparviewNode.actions = [])
    (ho : n.hyparviewNode.options = {}) {xs : List (NodeId K A)}
    (hxs : n.hyparviewNode.activeView.Perm xs) {passes : ℕ} (hp : 3 ≤ passes)
    (clock : List (WallClock × WallClock)) :
    Yields (takeInEach passes clock (xs.map lost) n) (fun m => m.hyparviewNode.actions = [] ∧
      m.hyparviewNode.activeView = [] ∧ ∃ calls, m.server = n.server ++ calls ∧
        ((∃ c ∈ calls, c.Solicits) ↔ xs ≠ [] ∧ n.hyparviewNode.passiveView ≠ [])) := by
  induction xs generalizing n with
  | nil => exact .ok ⟨ha, hxs.eq_nil, [], (List.append_nil _).symm, by simp⟩
  | cons x xs ih =>
    have hx : x ∈ n.hyparviewNode.activeView := hxs.mem_iff.mpr List.mem_cons_self
    obtain ⟨k, hk, hc, hka, hko, hperm, hpassive, as, has, hsol⟩ := takeIn_lost h ha ho hx hp clock
    rw [List.map_cons, takeInEach, hk, ok_bind]
    refine (ih hc hka hko (hperm.symm.trans hxs).cons_inv).mono ?_
    rintro m ⟨hma, hmv, bs, hbs, hsol'⟩
    refine ⟨hma, hmv, as ++ bs, by rw [hbs, has, List.append_assoc], ?_⟩
    have happend : (∃ c ∈ as ++ bs, c.Solicits) ↔
        (∃ c ∈ as, c.Solicits) ∨ ∃ c ∈ bs, c.Solicits := by
      simp only [List.mem_append, or_and_right, exists_or]
    have hkept : k.hyparviewNode.passiveView ≠ [] ↔ n.hyparviewNode.passiveView ≠ [] :=
      not_congr hpassive
    rw [happend, hsol, hsol', hkept]
    simp only [ne_eq, reduceCtorEq, not_false_eq_true, true_and]
    exact or_iff_left_of_imp And.right

/-- When a node leaves and handles what it then tells itself, its active view empties; it asks
nobody to be its neighbour exactly if it had no neighbour or no backup. -/
theorem leaves_quietly_iff {nodeId : NodeId K A} {rng : R} {draws : Draws} {choices : List ℕ}
    {s₀ s : Session K A M R} {tr : List (Taken (Session K A M R) (Input K A M))}
    (h₀ : Session.new nodeId rng draws choices = .ok s₀) (h : Run Session.step s₀ tr s)
    (ha : s.node.hyparviewNode.actions = []) {passes : ℕ} (hp : 3 ≤ passes)
    (clock : List (WallClock × WallClock)) :
    ∃ m, takeInEach passes clock
        ((s.node.callsSince s.node.leave).filterMap ServerCall.toSelf) s.node.leave = .ok m ∧
      m.hyparviewNode.actions = [] ∧ m.hyparviewNode.activeView = [] ∧
      ((∀ c ∈ s.node.callsSince m, ¬ c.Solicits) ↔
        s.node.hyparviewNode.activeView = [] ∨ s.node.hyparviewNode.passiveView = []) := by
  have hc := (Session.agreeing_of_run h₀ h).coherent
  have hleft : s.node.leave.Coherent ∧ s.node.leave.hyparviewNode = s.node.hyparviewNode := by
    rw [leave_eq]
    exact ⟨hc.congr rfl rfl, rfl⟩
  obtain ⟨hlc, hlv⟩ := hleft
  obtain ⟨m, hm, hma, hmv, calls, hcalls, hsol⟩ := takeInEach_lost hlc (hlv ▸ ha)
    (hlv ▸ Session.options_of_run h₀ h) (.of_eq (congrArg Hyparview.Node.activeView hlv)) hp clock
  rw [leave_toSelf]
  refine ⟨m, hm, hma, hmv, ?_⟩
  -- the calls of `leave` itself send `DISCONNECT` messages only
  have hsince : s.node.callsSince m = s.node.callsSince s.node.leave ++ calls := by
    rw [leave_eq] at hcalls ⊢
    simp only [callsSince, hcalls, List.append_assoc, List.drop_left]
  have hown : ∀ c ∈ s.node.callsSince s.node.leave, ¬ c.Solicits := by
    rw [leave_eq, callsSince, List.drop_left]
    intro c hc
    obtain ⟨x, _, hx⟩ := List.mem_flatMap.mp hc
    simp only [List.mem_cons, List.not_mem_nil, or_false] at hx
    rcases hx with rfl | rfl
    · exact fun hc => hc
    · exact fun hc => hc
  have hquiet : (∀ c ∈ s.node.callsSince m, ¬ c.Solicits) ↔ ¬ ∃ c ∈ calls, c.Solicits := by
    rw [hsince]
    simp only [List.mem_append, not_exists, not_and]
    exact ⟨fun hall c hc => hall c (.inr hc), fun hall c hc => hc.elim (hown c) (hall c)⟩
  rw [hquiet, hsol, hlv, not_and_or, not_not, not_not]

/-- Node 1 joins, and tells of some backups. -/
def befriended (backups : List (NodeId ℕ ℕ)) : List (Input ℕ ℕ ℕ) :=
  .arrive (.hyparview (.join ⟨⟨[], 1⟩⟩)) ::
    .arrive (.hyparview (.shuffleReply ⟨⟨[], 1⟩, backups⟩)) :: Session.polled 1000

/-- A node with one neighbour and no backup leaves quietly. -/
theorem leaves_quietly_iff_befriended : ∃ (s : Session ℕ ℕ ℕ Playback)
    (tr : List (Taken (Session ℕ ℕ ℕ Playback) (Input ℕ ℕ ℕ))) (m : P2PNode ℕ ℕ ℕ Playback),
      Run Session.step Session.solo tr s ∧ s.node.hyparviewNode.activeView = [⟨[], 1⟩] ∧
      takeInEach 3 [] ((s.node.callsSince s.node.leave).filterMap ServerCall.toSelf)
        s.node.leave = .ok m ∧
      m.hyparviewNode.activeView = [] ∧ ∀ c ∈ s.node.callsSince m, ¬ c.Solicits := by
  have hrun : follow Session.step Session.solo (befriended []) = .ok _ := rfl
  obtain ⟨m, hm, _, hv, hquiet⟩ := leaves_quietly_iff Session.new_solo
    (Run.of_follow (befriended []) hrun) rfl le_rfl []
  exact ⟨_, _, m, Run.of_follow _ hrun, rfl, hm, hv, hquiet.mpr (.inr rfl)⟩

/-- A node with one neighbour and one backup asks the backup to be its neighbour as it leaves. -/
theorem backup_solicited : ∃ (s : Session ℕ ℕ ℕ Playback)
    (tr : List (Taken (Session ℕ ℕ ℕ Playback) (Input ℕ ℕ ℕ))) (m : P2PNode ℕ ℕ ℕ Playback),
      Run Session.step Session.solo tr s ∧ s.node.hyparviewNode.actions = [] ∧
      takeInEach 3 [] ((s.node.callsSince s.node.leave).filterMap ServerCall.toSelf)
        s.node.leave = .ok m ∧
      .sendProtocolMessageSync ⟨[], 2⟩ (.hyparview (.neighbor ⟨⟨[], 0⟩, true⟩)) ∈
        s.node.callsSince m := by
  have hrun : follow Session.step Session.solo (befriended [⟨[], 2⟩]) = .ok _ := rfl
  exact ⟨_, _, _, Run.of_follow _ hrun, rfl, rfl, by decide⟩

end P2PNode

end QuicP2p.P2p
