import QuicP2p.P2p.Layers
import QuicP2p.Library.Timer

/-! How often a node runs the tasks that maintain its views. -/

namespace QuicP2p.Plumtree.Node

open Library

variable {N I P : Type} [DecidableEq N] [DecidableEq I] {n m : Node N I P}

omit [DecidableEq I] in
lemma clock_handleNeighborUp (n : Node N I P) (x : N) : (n.handleNeighborUp x).clock = n.clock := by
  by_cases hk : x ∈ n.neighbours ∨ n.id = x
  · rw [handleNeighborUp, if_pos (by rwa [isKnownNode_iff])]
  · rw [not_or] at hk
    rw [handleNeighborUp_of_new hk.1 hk.2]

lemma clock_handleNeighborDown {x : N} (hn : n.missings.Valid)
    (h : n.handleNeighborDown x = .ok m) : m.clock = n.clock := by
  cases (handleNeighborDown_spec hn x).of_ok h with
  | unknown => rfl
  | eager => rfl
  | grafted _ hk =>
    obtain ⟨_, _, hk⟩ := hk.drained
    exact hk.clock_eq

lemma clock_handleProtocolMessage (n : Node N I P) (msg : ProtocolMessage N I P) :
    (n.handleProtocolMessage msg).2.clock = n.clock := by
  by_cases hs : msg.sender ∈ n.neighbours
  · rw [handleProtocolMessage.eq_def, if_pos (isKnownNode_iff.mpr hs)]
    cases msg with
    | gossip g =>
      dsimp only
      by_cases h : n.Holds g.message.id
      · rw [handleGossip_of_holds h]
        rfl
      · rw [handleGossip_of_fresh h]
        rfl
    | ihave h =>
      dsimp only [handleIhave]
      split <;> rfl
    | graft g =>
      dsimp only [handleGraft]
      split
      · split <;> rfl
      · rfl
    | prune p => rfl
  · rw [handleProtocolMessage_unknown hs]

lemma clock_pollAction {a : Option (Action N I P)} (hn : n.missings.Valid)
    (h : n.pollAction = .ok (a, m)) : m.clock = n.clock := by
  obtain ⟨k, hk, h⟩ := bind_eq_ok.mp h
  obtain ⟨⟨_, hd, _⟩, _⟩ := (handleExpiration_spec hn).of_ok hk
  cases h
  exact hd.clock_eq

end QuicP2p.Plumtree.Node

namespace QuicP2p.P2p

open Library
open Plumtree (Duration NodeTime)

variable {K A M R : Type}

/-- The tasks of HyParView that the tick handler runs from time to time. -/
inductive Task
  | shufflePassiveView
  | syncActiveView
  | fillActiveView
  deriving DecidableEq

namespace Task

def due (n : P2PNode K A M R) : Task → NodeTime
  | shufflePassiveView => n.hyparviewShuffleTime
  | syncActiveView => n.hyparviewSyncActiveViewTime
  | fillActiveView => n.hyparviewFillActiveViewTime

def interval (params : Parameters) : Task → Duration
  | shufflePassiveView => params.hyparviewShuffleInterval
  | syncActiveView => params.hyparviewSyncActiveViewInterval
  | fillActiveView => params.hyparviewFillActiveViewInterval

def operation (T : Type) : Task → Hyparview.Operation T
  | shufflePassiveView => .shufflePassiveView
  | syncActiveView => .syncActiveView
  | fillActiveView => .fillActiveView

end Task

lemma genInterval_bounds {base interval draw : ℕ} (h : genInterval base draw = .ok interval) :
    base ≤ interval ∧ interval ≤ base + base / 10 := by
  obtain ⟨hpos, hi⟩ : 0 < base / 1000000 / 10 ∧
      interval = base + draw % (base / 1000000 / 10) * 1000000 := by
    unfold genInterval at h
    dsimp only at h
    split_ifs at h with hzero
    exact ⟨Nat.pos_of_ne_zero hzero, (Except.ok.inj h).symm⟩
  have hlt : draw % (base / 1000000 / 10) < base / 1000000 / 10 := Nat.mod_lt _ hpos
  omega

namespace P2PNode

variable {n m : P2PNode K A M R}

/-- The time that a tick brings. -/
def nextTime (n : P2PNode K A M R) : NodeTime :=
  (n.plumtreeNode.tick n.params.tickInterval).clock.now

/-- The tasks that are due at the next tick, in the order in which it runs them. -/
def dueTasks (n : P2PNode K A M R) : List Task :=
  [.shufflePassiveView, .syncActiveView, .fillActiveView].filter (·.due n ≤ n.nextTime)

lemma mem_dueTasks {task : Task} : task ∈ n.dueTasks ↔ task.due n ≤ n.nextTime := by
  rw [dueTasks, List.mem_filter, decide_eq_true_eq]
  exact and_iff_right (by cases task <;> simp)

lemma dueTasks_eq (n : P2PNode K A M R) : n.dueTasks =
    (if n.hyparviewShuffleTime ≤ n.nextTime then [.shufflePassiveView] else []) ++
      ((if n.hyparviewSyncActiveViewTime ≤ n.nextTime then [.syncActiveView] else []) ++
        if n.hyparviewFillActiveViewTime ≤ n.nextTime then [.fillActiveView] else []) := by
  by_cases hs : n.hyparviewShuffleTime ≤ n.nextTime <;>
    by_cases ha : n.hyparviewSyncActiveViewTime ≤ n.nextTime <;>
    by_cases hf : n.hyparviewFillActiveViewTime ≤ n.nextTime <;>
    simp [dueTasks, Task.due, hs, ha, hf]

variable [DecidableEq K] [DecidableEq A] [Rng R]

omit [DecidableEq K] [DecidableEq A] [Rng R] in
lemma whenDue_cases {hv hv' : HyparviewNode K A R} {due now next : NodeTime} {base : Duration}
    {draw : ℕ} {task : HyparviewNode K A R → Exec (HyparviewNode K A R)}
    (h : whenDue hv due now task base draw = .ok (hv', next)) :
    (due ≤ now ∧ task hv = .ok hv' ∧ ∃ i, genInterval base draw = .ok i ∧ next = now + i) ∨
      (now < due ∧ hv' = hv ∧ next = due) := by
  unfold whenDue at h
  split_ifs at h with hdue
  · obtain ⟨k, hk, h⟩ := bind_eq_ok.mp h
    obtain ⟨i, hi, h⟩ := bind_eq_ok.mp h
    cases h
    exact .inl ⟨hdue, hk, i, hi, rfl⟩
  · cases h
    exact .inr ⟨not_le.mp hdue, rfl, rfl⟩

lemma whenDue_calls {hv hv' : HyparviewNode K A R} {due now next : NodeTime} {base : Duration}
    {draw : ℕ} {task : HyparviewNode K A R → Exec (HyparviewNode K A R)}
    (op : Hyparview.Operation (NodeId K A)) (htask : ∀ hv, task hv = hv.perform op)
    (h : whenDue hv due now task base draw = .ok (hv', next)) :
    (if due ≤ now then [op] else []).foldlM Hyparview.Node.perform hv = .ok hv' := by
  rcases whenDue_cases h with ⟨hdue, hrun, _⟩ | ⟨hdue, rfl, _⟩
  · rw [htask] at hrun
    simpa only [if_pos hdue, List.foldlM_cons, List.foldlM_nil, bind_pure] using hrun
  · rw [if_neg hdue.not_ge]
    rfl

lemma handleTick_calls {draws : Draws} (h : n.handleTick draws = .ok m) :
    (n.dueTasks.map (Task.operation (NodeId K A))).foldlM Hyparview.Node.perform n.hyparviewNode =
      .ok m.hyparviewNode := by
  obtain ⟨h₁, h₂, h₃, _, _, _, hshuffle, hsync, hfill, rfl⟩ := handleTick_ok h
  have hshuffle := whenDue_calls .shufflePassiveView (fun _ => rfl) hshuffle
  have hsync := whenDue_calls .syncActiveView (fun _ => rfl) hsync
  have hfill := whenDue_calls .fillActiveView (fun _ => rfl) hfill
  simp only [dueTasks_eq, List.map_append, apply_ite (List.map _), List.map_cons, List.map_nil,
    List.foldlM_append]
  exact bind_eq_ok.mpr ⟨h₁, hshuffle, bind_eq_ok.mpr ⟨h₂, hsync, hfill⟩⟩

end P2PNode

/-- The clock stands still, and the timers are not set. -/
structure SameTime (n m : P2PNode K A M R) : Prop where
  clock_eq : m.plumtreeNode.clock = n.plumtreeNode.clock
  params_eq : m.params = n.params
  shuffle_eq : m.hyparviewShuffleTime = n.hyparviewShuffleTime
  sync_eq : m.hyparviewSyncActiveViewTime = n.hyparviewSyncActiveViewTime
  fill_eq : m.hyparviewFillActiveViewTime = n.hyparviewFillActiveViewTime

lemma SameTime.refl (n : P2PNode K A M R) : SameTime n n := ⟨rfl, rfl, rfl, rfl, rfl⟩

lemma SameTime.due_eq {n m : P2PNode K A M R} (h : SameTime n m) (task : Task) :
    task.due m = task.due n := by
  cases task with
  | shufflePassiveView => exact h.shuffle_eq
  | syncActiveView => exact h.sync_eq
  | fillActiveView => exact h.fill_eq

namespace Session

variable {s s₀ t : Session K A M R} {i : Input K A M}

/-- The tick that an input brings runs the task. -/
def Runs (s : Session K A M R) (task : Task) : Input K A M → Prop
  | .poll (some _) => s.stage = .idle ∧ task.due s.node ≤ s.node.nextTime
  | _ => False

instance (s : Session K A M R) (task : Task) (i : Input K A M) : Decidable (s.Runs task i) :=
  match i with
  | .poll (some _) => inferInstanceAs (Decidable (_ ∧ _))
  | .poll none => .isFalse id
  | .join _ => .isFalse id
  | .broadcast _ _ => .isFalse id
  | .leave => .isFalse id
  | .arrive _ => .isFalse id
  | .advance _ _ => .isFalse id
  | .reorder _ _ => .isFalse id

variable [DecidableEq K] [DecidableEq A] [Rng R]

omit [DecidableEq K] [DecidableEq A] [Rng R] in
lemma sameTime_search {n : P2PNode K A M R} {now : WallClock}
    {r : Option (PlumtreeAppMessage K A M) × P2PNode K A M R}
    (h : n.processSequentialMessages now = .ok r) : SameTime n r.2 := by
  obtain ⟨⟨_, _, hr⟩, _⟩ := (processSequentialMessages_spec n now).of_ok h
  rw [hr]
  exact ⟨rfl, rfl, rfl, rfl, rfl⟩

lemma sameTime_acted {n m : P2PNode K A M R} {a : HyparviewAction K A}
    (hn : n.plumtreeNode.missings.Valid) (h : n.handleHyparviewAction a = .ok m) :
    SameTime n m := by
  cases a with
  | send d msg =>
    cases h
    exact ⟨rfl, rfl, rfl, rfl, rfl⟩
  | disconnect x =>
    obtain ⟨_, _, h⟩ := bind_eq_ok.mp h
    cases h
    exact ⟨rfl, rfl, rfl, rfl, rfl⟩
  | notify e =>
    cases e with
    | neighborUp x =>
      cases h
      exact ⟨Plumtree.Node.clock_handleNeighborUp _ x, rfl, rfl, rfl, rfl⟩
    | neighborDown x =>
      obtain ⟨p, hp, h⟩ := bind_eq_ok.mp h
      cases h
      exact ⟨Plumtree.Node.clock_handleNeighborDown hn hp, rfl, rfl, rfl, rfl⟩

lemma sameTime_of_step (h : s.Agreeing) (hs : s.step i = .ok t)
    (hi : ∀ draws, i ≠ .poll (some draws)) : SameTime s.node t.node := by
  have hv := h.coherent.valid
  cases stepped_of_step hs with
  | refused => exact .refl _
  | joined => exact ⟨rfl, rfl, rfl, rfl, rfl⟩
  | broadcast _ hb =>
    obtain ⟨_, _, _, rfl⟩ := P2PNode.broadcast_ok hb
    refine ⟨?_, rfl, rfl, rfl, rfl⟩
    rw [Plumtree.Node.broadcastMessage_eq]
  | left =>
    rw [P2PNode.leave_eq]
    exact ⟨rfl, rfl, rfl, rfl, rfl⟩
  | arrived => exact ⟨rfl, rfl, rfl, rfl, rfl⟩
  | reordered => exact ⟨rfl, rfl, rfl, rfl, rfl⟩
  | polled => exact .refl _
  | ticked => exact absurd rfl (hi _)
  | @acted b receive now a rest n _ ha hn =>
    have hsame := sameTime_acted (by exact hv) hn
    exact ⟨hsame.clock_eq, hsame.params_eq, hsame.shuffle_eq, hsame.sync_eq, hsame.fill_eq⟩
  | drained => exact .refl _
  | @searched b receive now r _ hr =>
    rw [node_found]
    exact sameTime_search hr
  | @executed b receive now a p r _ ha hr =>
    have hclock := Plumtree.Node.clock_pollAction hv ha
    change SameTime s.node (s.found (.plumtree true) r).node
    rw [node_found]
    cases a with
    | send d msg =>
      cases hr
      exact ⟨hclock, rfl, rfl, rfl, rfl⟩
    | deliver m =>
      have hsame := sameTime_search hr
      exact ⟨hsame.clock_eq.trans hclock, hsame.params_eq, hsame.shuffle_eq, hsame.sync_eq,
        hsame.fill_eq⟩
  | exhausted _ ha =>
    exact ⟨Plumtree.Node.clock_pollAction hv ha, rfl, rfl, rfl, rfl⟩
  | @received b stop receive now m rest n _ _ hn =>
    cases m with
    | hyparview m =>
      obtain ⟨_, _, hn⟩ := bind_eq_ok.mp hn
      cases hn
      exact ⟨rfl, rfl, rfl, rfl, rfl⟩
    | plumtree m =>
      cases hn
      exact ⟨Plumtree.Node.clock_handleProtocolMessage _ m, rfl, rfl, rfl, rfl⟩
    | plumtreeStream m => cases hn
  | ended => exact .refl _

lemma ticked_or_sameTime (h : s.Agreeing) (hs : s.step i = .ok t) :
    (∃ draws, i = .poll (some draws) ∧ s.stage = .idle ∧ s.node.handleTick draws = .ok t.node) ∨
      SameTime s.node t.node ∧ ∀ task, ¬ s.Runs task i := by
  by_cases hi : ∃ draws, i = .poll (some draws)
  · obtain ⟨draws, rfl⟩ := hi
    by_cases hidle : s.stage = .idle
    · simp only [step, if_pos hidle] at hs
      obtain ⟨n, hn, hs⟩ := bind_eq_ok.mp hs
      cases hs
      exact .inl ⟨draws, rfl, hidle, hn⟩
    · simp only [step, if_neg hidle] at hs
      cases hs
      exact .inr ⟨.refl _, fun _ hr => hidle hr.1⟩
  · push Not at hi
    refine .inr ⟨sameTime_of_step h hs hi, fun task hr => ?_⟩
    cases i with
    | poll tick =>
      cases tick with
      | none => exact hr
      | some draws => exact hi draws rfl
    | _ => exact hr

/-- The timer of a task, which has run `k` times. -/
def Timed (task : Task) (k : ℕ) (s : Session K A M R) : Prop :=
  ∃ now due : ℕ, s.node.plumtreeNode.clock.now = now ∧ task.due s.node = due ∧
    Paced (task.interval {}) (task.interval {} + task.interval {} / 10)
      ({} : Parameters).tickInterval k now due

lemma interval_pos (task : Task) : 0 < task.interval {} := by cases task <;> decide

omit [DecidableEq K] [DecidableEq A] in
/-- The timer of each task as a tick leaves it. -/
lemma due_handleTick {n m : P2PNode K A M R} {draws : Draws} (h : n.handleTick draws = .ok m)
    (task : Task) : m.params = n.params ∧ m.plumtreeNode.clock.now = n.nextTime ∧
      ((task.due n ≤ n.nextTime ∧ ∃ i, task.interval n.params ≤ i ∧
          i ≤ task.interval n.params + task.interval n.params / 10 ∧
          task.due m = n.nextTime + i) ∨
        (n.nextTime < task.due n ∧ task.due m = task.due n)) := by
  obtain ⟨h₁, h₂, h₃, t₁, t₂, t₃, hshuffle, hsync, hfill, rfl⟩ := P2PNode.handleTick_ok h
  have hcases : ∀ {hv hv' : HyparviewNode K A R} {due next : NodeTime} {base : Duration} {draw : ℕ}
      {task : HyparviewNode K A R → Exec (HyparviewNode K A R)},
      P2PNode.whenDue hv due n.nextTime task base draw = .ok (hv', next) →
      (due ≤ n.nextTime ∧ ∃ i, base ≤ i ∧ i ≤ base + base / 10 ∧ next = n.nextTime + i) ∨
        (n.nextTime < due ∧ next = due) := by
    intro hv hv' due next base draw task hw
    rcases P2PNode.whenDue_cases hw with ⟨hdue, _, i, hi, hnext⟩ | ⟨hdue, _, hnext⟩
    · obtain ⟨hlow, hhigh⟩ := genInterval_bounds hi
      exact .inl ⟨hdue, i, hlow, hhigh, hnext⟩
    · exact .inr ⟨hdue, hnext⟩
  refine ⟨rfl, rfl, ?_⟩
  cases task with
  | shufflePassiveView => exact hcases hshuffle
  | syncActiveView => exact hcases hsync
  | fillActiveView => exact hcases hfill

lemma Timed.step {task : Task} {k : ℕ} (h : Timed task k s) (ha : s.Agreeing)
    (hp : s.node.params = {}) (hs : s.step i = .ok t) :
    t.node.params = {} ∧ Timed task (if s.Runs task i then k + 1 else k) t := by
  obtain ⟨now, due, hnow, hdue, hpaced⟩ := h
  rcases ticked_or_sameTime ha hs with ⟨draws, rfl, hidle, ht⟩ | ⟨hsame, hruns⟩
  · obtain ⟨hparams, hclock, hset⟩ := due_handleTick ht task
    have hnext : s.node.nextTime = ↑(now + ({} : Parameters).tickInterval) := by
      rw [P2PNode.nextTime, Plumtree.Node.tick, Plumtree.Clock.tick, hp]
      change s.node.plumtreeNode.clock.now + _ = _
      rw [hnow, Nat.cast_add]
    rw [hp, hdue, hnext] at hset
    rw [hnext] at hclock
    refine ⟨hparams.trans hp, ?_⟩
    rcases hset with ⟨hle, i, hlow, hhigh, hset⟩ | ⟨hlt, hset⟩
    · rw [if_pos ⟨hidle, by rwa [hdue, hnext]⟩]
      refine ⟨_, _, hclock, hset.trans (Nat.cast_add _ _).symm, ?_⟩
      exact hpaced.fire (interval_pos task) (Nat.cast_le.mp hle) le_rfl hlow hhigh
    · have hruns : ¬ s.Runs task (.poll (some draws)) := fun hr => by
        have hle := hr.2
        rw [hdue, hnext] at hle
        exact hlt.not_ge hle
      rw [if_neg hruns]
      exact ⟨_, _, hclock, hset, hpaced.wait (Nat.le_add_right _ _) (Nat.cast_lt.mp hlt)⟩
  · rw [if_neg (hruns task)]
    refine ⟨hsame.params_eq.trans hp, now, due, ?_, (hsame.due_eq task).trans hdue, hpaced⟩
    rw [hsame.clock_eq, hnow]

omit [DecidableEq K] [DecidableEq A] [Rng R] in
lemma Timed.congr {task : Task} {k : ℕ} (h : Timed task k s) (hsame : SameTime s.node t.node) :
    Timed task k t := by
  obtain ⟨now, due, hnow, hdue, hpaced⟩ := h
  exact ⟨now, due, by rw [hsame.clock_eq, hnow], (hsame.due_eq task).trans hdue, hpaced⟩

omit [DecidableEq K] [DecidableEq A] [Rng R] in
lemma Timed.clock_lt {task : Task} {k : ℕ} (h : Timed task k s) :
    s.node.plumtreeNode.clock.now < task.due s.node := by
  obtain ⟨now, due, hnow, hdue, hpaced⟩ := h
  rw [hnow, hdue]
  exact Nat.cast_lt.mpr hpaced.waits

lemma due_of_not_runs {task : Task} (ha : s.Agreeing) (hs : s.step i = .ok t)
    (hr : ¬ s.Runs task i) : task.due t.node = task.due s.node := by
  rcases ticked_or_sameTime ha hs with ⟨draws, rfl, hidle, ht⟩ | ⟨hsame, _⟩
  · rcases (due_handleTick ht task).2.2 with ⟨hle, _⟩ | ⟨_, hset⟩
    · exact absurd ⟨hidle, hle⟩ hr
    · exact hset
  · exact hsame.due_eq task

variable {tr : List (Taken (Session K A M R) (Input K A M))} {nodeId : NodeId K A} {rng : R}
  {draws : Draws} {choices : List ℕ}

omit [DecidableEq K] [DecidableEq A] [Rng R] in
lemma timed_new (h₀ : Session.new nodeId rng draws choices = .ok s₀) (task : Task) :
    s₀.node.params = {} ∧ Timed task 0 s₀ := by
  obtain ⟨n, hn, h₀⟩ := bind_eq_ok.mp h₀
  obtain ⟨shuffle, hshuffle, hn⟩ := bind_eq_ok.mp hn
  obtain ⟨sync, hsync, hn⟩ := bind_eq_ok.mp hn
  obtain ⟨fill, hfill, hn⟩ := bind_eq_ok.mp hn
  cases hn
  cases h₀
  have hset : ∀ {base draw interval : ℕ}, genInterval base draw = .ok interval → 0 < base →
      (0 : NodeTime) + interval = interval ∧
        Paced base (base + base / 10) ({} : Parameters).tickInterval 0 0 interval := by
    intro base draw interval hi hpos
    obtain ⟨hlow, hhigh⟩ := genInterval_bounds hi
    exact ⟨zero_add _, .start hpos hlow hhigh⟩
  refine ⟨rfl, 0, ?_⟩
  cases task with
  | shufflePassiveView => exact ⟨shuffle, rfl, hset hshuffle (interval_pos .shufflePassiveView)⟩
  | syncActiveView => exact ⟨sync, rfl, hset hsync (interval_pos .syncActiveView)⟩
  | fillActiveView => exact ⟨fill, rfl, hset hfill (interval_pos .fillActiveView)⟩

lemma timed_of_run (h₀ : Session.new nodeId rng draws choices = .ok s₀) (h : Run step s₀ tr s)
    (task : Task) : Timed task (tr.countP fun e => e.before.Runs task e.input) s := by
  refine (h.history (P := fun tr s => s.Agreeing ∧ s.node.params = {} ∧
    Timed task (tr.countP fun e => e.before.Runs task e.input) s) ?_ ?_).2.2
  · rintro tr t i u ⟨ha, hp, ht⟩ hs
    obtain ⟨hp', ht'⟩ := ht.step ha hp hs
    refine ⟨ha.step hs, hp', ?_⟩
    rw [List.countP_append, List.countP_singleton]
    by_cases hr : t.Runs task i
    · simpa only [hr, decide_true, if_true] using ht'
    · simpa only [hr, decide_false, if_false, Bool.false_eq_true, add_zero] using ht'
  · obtain ⟨hp, ht⟩ := timed_new h₀ task
    exact ⟨new_agreeing h₀, hp, ht⟩

/-- The ticks that run a task are no closer to each other than its interval, and each comes before
the clock is a tick past the longest interval. A tick performs the tasks that are due, each once and
in their order, and does nothing else to HyParView. -/
theorem tasks_paced (h₀ : Session.new nodeId rng draws choices = .ok s₀) (h : Run step s₀ tr s)
    (task : Task) :
    (∃ k now : ℕ, k = tr.countP (fun e => e.before.Runs task e.input) ∧
      s.node.plumtreeNode.clock.now = now ∧ k * task.interval {} ≤ now ∧
      now < (k + 1) * (task.interval {} + task.interval {} / 10) +
        k * ({} : Parameters).tickInterval) ∧
    ∀ e ∈ tr, ∀ draws, e.input = .poll (some draws) → e.before.stage = .idle →
      (∀ other, e.before.Runs other e.input ↔ other ∈ e.before.node.dueTasks) ∧
      (e.before.node.dueTasks.map (Task.operation (NodeId K A))).foldlM Hyparview.Node.perform
        e.before.node.hyparviewNode = .ok e.after.node.hyparviewNode := by
  refine ⟨?_, ?_⟩
  · obtain ⟨now, due, hnow, _, hpaced⟩ := timed_of_run h₀ h task
    exact ⟨_, now, rfl, hnow, hpaced.bounds⟩
  · rintro ⟨before, input, after⟩ he draws hi hidle
    dsimp only at hi hidle ⊢
    obtain ⟨_, _, hs, _⟩ := h.to_before he
    subst hi
    dsimp only at hs
    rw [step, if_pos hidle] at hs
    obtain ⟨n, hn, hs⟩ := bind_eq_ok.mp hs
    cases hs
    refine ⟨fun other => ?_, P2PNode.handleTick_calls hn⟩
    rw [P2PNode.mem_dueTasks]
    exact and_iff_right hidle

/-- A node that is alone, and the ticks until it first tries to fill its active view. -/
def ticking : List (Input ℕ ℕ ℕ) :=
  (List.replicate 300 (.poll (some ⟨0, 0, 0⟩) :: List.replicate 4 (.advance none none))).flatten

theorem tasks_paced_ticking : ∃ (s : Session ℕ ℕ ℕ Playback)
    (tr : List (Taken (Session ℕ ℕ ℕ Playback) (Input ℕ ℕ ℕ))), Run step solo tr s ∧
      tr.countP (fun e => e.before.Runs .fillActiveView e.input) = 1 ∧
      (∃ k now : ℕ, k = tr.countP (fun e => e.before.Runs .fillActiveView e.input) ∧
        s.node.plumtreeNode.clock.now = now ∧ k * 30000000000 ≤ now ∧
        now < (k + 1) * 33000000000 + k * 100000000) ∧
      ∃ e ∈ tr, e.before.node.dueTasks = [.fillActiveView] ∧
        [Hyparview.Operation.fillActiveView].foldlM Hyparview.Node.perform
          e.before.node.hyparviewNode = .ok e.after.node.hyparviewNode := by
  obtain ⟨tr, s, hrun, hcount, e, he, hidle, hi, hdue⟩ := @Run.exists_of_follow _ _ _ step solo
    (fun tr _ => tr.countP (fun e => e.before.Runs .fillActiveView e.input) = 1 ∧
      ∃ e ∈ tr, e.before.stage = .idle ∧ e.input = .poll (some ⟨0, 0, 0⟩) ∧
        e.before.node.dueTasks = [.fillActiveView]) _ ticking (by decide +kernel)
  obtain ⟨hpaced, hcalls⟩ := tasks_paced new_solo hrun .fillActiveView
  refine ⟨s, tr, hrun, hcount, hpaced, e, he, hdue, ?_⟩
  obtain ⟨_, hcall⟩ := hcalls e he _ hi hidle
  rw [hdue] at hcall
  exact hcall

end Session

end QuicP2p.P2p
