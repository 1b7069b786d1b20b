import QuicP2p.P2p.Message

/-! Vector clocks, and what their comparison has to do with the causal order. -/

namespace QuicP2p.P2p

open Library

inductive VectorClockOrdering
  | before
  | after
  | concurrent
  | equal
  deriving DecidableEq

namespace VectorClockOrdering

/-- The verdict with the two sides exchanged. -/
def swap : VectorClockOrdering → VectorClockOrdering
  | before => after
  | after => before
  | concurrent => concurrent
  | equal => equal

section

variable {α : Type*} [PartialOrder α] {a b : α}

open Classical in
/-- How two elements of a partial order stand to each other. -/
noncomputable def causal (a b : α) : VectorClockOrdering :=
  if a < b then before else if b < a then after else if a = b then equal else concurrent

lemma causal_of_lt (h : a < b) : causal a b = before := if_pos h

lemma causal_of_gt (h : b < a) : causal a b = after := by
  rw [causal, if_neg h.not_gt, if_pos h]

@[simp] lemma causal_self (a : α) : causal a a = equal := by simp [causal]

lemma causal_of_incomparable (h : ¬ a ≤ b) (h' : ¬ b ≤ a) : causal a b = concurrent := by
  have hne : a ≠ b := fun he => h he.le
  rw [causal, if_neg (mt le_of_lt h), if_neg (mt le_of_lt h'), if_neg hne]

lemma causal_cases (a b : α) :
    (a < b ∧ causal a b = before) ∨ (b < a ∧ causal a b = after) ∨
      (a = b ∧ causal a b = equal) ∨ (¬ a ≤ b ∧ ¬ b ≤ a) ∧ causal a b = concurrent := by
  by_cases hlt : a < b
  · exact .inl ⟨hlt, causal_of_lt hlt⟩
  by_cases hgt : b < a
  · exact .inr (.inl ⟨hgt, causal_of_gt hgt⟩)
  by_cases heq : a = b
  · subst heq
    exact .inr (.inr (.inl ⟨rfl, causal_self a⟩))
  · have hab : ¬ a ≤ b := fun h => hlt (lt_of_le_of_ne h heq)
    have hba : ¬ b ≤ a := fun h => hgt (lt_of_le_of_ne h (Ne.symm heq))
    exact .inr (.inr (.inr ⟨⟨hab, hba⟩, causal_of_incomparable hab hba⟩))

lemma causal_swap (a b : α) : causal b a = (causal a b).swap := by
  rcases causal_cases a b with ⟨h, hv⟩ | ⟨h, hv⟩ | ⟨rfl, hv⟩ | ⟨⟨h, h'⟩, hv⟩
  · rw [hv, causal_of_gt h]
    rfl
  · rw [hv, causal_of_lt h]
    rfl
  · rw [hv]
    rfl
  · rw [hv, causal_of_incomparable h' h]
    rfl

end

end VectorClockOrdering

structure VectorClock (K A : Type) where
  nodeId : NodeId K A
  timestamps : HashMap (NodeId K A) UInt64

namespace VectorClock

variable {K A : Type} [DecidableEq K] [DecidableEq A]

def new (nodeId : NodeId K A) : VectorClock K A := ⟨nodeId, HashMap.empty.insert nodeId 0⟩

def updateFrom (c : VectorClock K A) (sender : NodeId K A) (senderTimestamp : UInt64) :
    VectorClock K A :=
  let current := (c.timestamps.get sender).getD 0
  { c with timestamps := c.timestamps.insert sender (max current senderTimestamp) }

def increment (c : VectorClock K A) : Exec (VectorClock K A) :=
  let current := (c.timestamps.get c.nodeId).getD 0
  if current.toNat + 1 < 2 ^ 64 then
    .ok { c with timestamps := c.timestamps.insert c.nodeId (current + 1) }
  else .error .overflow

def getOwnTimestamp (c : VectorClock K A) : UInt64 := (c.timestamps.get c.nodeId).getD 0

def selfIsGreater (c other : VectorClock K A) : Bool :=
  c.timestamps.iter.all (fun (node, ts) =>
    (other.timestamps.get node).any (fun otherTs => ts ≥ otherTs)) &&
  c.timestamps.iter.any (fun (node, ts) =>
    (other.timestamps.get node).any (fun otherTs => ts > otherTs))

def otherIsGreater (c other : VectorClock K A) : Bool :=
  other.timestamps.iter.all (fun (node, ts) =>
    (c.timestamps.get node).any (fun selfTs => ts < selfTs)) &&
  other.timestamps.iter.any (fun (node, ts) =>
    (c.timestamps.get node).any (fun selfTs => ts < selfTs))

def compareWith (c other : VectorClock K A) : VectorClockOrdering :=
  if c.selfIsGreater other && c.otherIsGreater other then .concurrent
  else if c.selfIsGreater other then .after
  else if c.otherIsGreater other then .before
  else .equal

/-- The time of a node on the clock; that of an unknown node is 0. -/
def time (c : VectorClock K A) (node : NodeId K A) : ℕ :=
  ((c.timestamps.get node).getD 0).toNat

/-- The clock has an entry for the node. -/
def Knows (c : VectorClock K A) (node : NodeId K A) : Prop := ∃ ts, c.timestamps.get node = some ts

variable {a b c : VectorClock K A} {n : NodeId K A}

lemma time_of_get {ts : UInt64} (h : c.timestamps.get n = some ts) : c.time n = ts.toNat := by
  rw [time, h]
  rfl

lemma time_of_unknown (h : ¬ c.Knows n) : c.time n = 0 := by
  have hnone : c.timestamps.get n = none := by
    rw [Option.eq_none_iff_forall_ne_some]
    exact fun ts hts => h ⟨ts, hts⟩
  rw [time, hnone]
  rfl

lemma knows_of_time_pos (h : 0 < c.time n) : c.Knows n := by
  by_contra hn
  rw [time_of_unknown hn] at h
  exact h.false

section

variable {p : UInt64 → UInt64 → Bool} {r : ℕ → ℕ → Prop}

lemma any_get (hp : ∀ x y, p x y = true ↔ r x.toNat y.toNat) {ts : UInt64}
    (h : a.timestamps.get n = some ts) :
    (b.timestamps.get n).any (p ts) = true ↔ b.Knows n ∧ r (a.time n) (b.time n) := by
  rw [time_of_get h, Option.any_eq_true]
  constructor
  · rintro ⟨other, hget, hrel⟩
    rw [time_of_get hget]
    exact ⟨⟨other, hget⟩, (hp ts other).mp hrel⟩
  · rintro ⟨⟨other, hget⟩, hrel⟩
    rw [time_of_get hget] at hrel
    exact ⟨other, hget, (hp ts other).mpr hrel⟩

lemma all_iter (hp : ∀ x y, p x y = true ↔ r x.toNat y.toNat) :
    a.timestamps.iter.all (fun (node, ts) => (b.timestamps.get node).any (p ts)) = true ↔
      ∀ n, a.Knows n → b.Knows n ∧ r (a.time n) (b.time n) := by
  rw [List.all_eq_true]
  constructor
  · rintro h n ⟨ts, hget⟩
    exact (any_get hp hget).mp (h (n, ts) (HashMap.mem_iter.mpr hget))
  · rintro h ⟨n, ts⟩ hm
    have hget := HashMap.mem_iter.mp hm
    exact (any_get hp hget).mpr (h n ⟨ts, hget⟩)

lemma any_iter (hp : ∀ x y, p x y = true ↔ r x.toNat y.toNat) :
    a.timestamps.iter.any (fun (node, ts) => (b.timestamps.get node).any (p ts)) = true ↔
      ∃ n, a.Knows n ∧ b.Knows n ∧ r (a.time n) (b.time n) := by
  rw [List.any_eq_true]
  constructor
  · rintro ⟨⟨n, ts⟩, hm, ht⟩
    have hget := HashMap.mem_iter.mp hm
    exact ⟨n, ⟨ts, hget⟩, (any_get hp hget).mp ht⟩
  · rintro ⟨n, ⟨ts, hget⟩, hrel⟩
    exact ⟨(n, ts), HashMap.mem_iter.mpr hget, (any_get hp hget).mpr hrel⟩

end

lemma selfIsGreater_iff : a.selfIsGreater b = true ↔
    (∀ n, a.Knows n → b.Knows n ∧ b.time n ≤ a.time n) ∧
      ∃ n, a.Knows n ∧ b.Knows n ∧ b.time n < a.time n := by
  rw [selfIsGreater, Bool.and_eq_true]
  refine and_congr
    (all_iter (p := fun ts otherTs => ts ≥ otherTs) (r := fun x y => y ≤ x) fun x y => ?_)
    (any_iter (p := fun ts otherTs => ts > otherTs) (r := fun x y => y < x) fun x y => ?_)
  · rw [decide_eq_true_iff, ge_iff_le, UInt64.le_iff_toNat_le]
  · rw [decide_eq_true_iff, gt_iff_lt, UInt64.lt_iff_toNat_lt]

lemma otherIsGreater_iff : a.otherIsGreater b = true ↔
    (∀ n, b.Knows n → a.Knows n ∧ b.time n < a.time n) ∧ ∃ n, b.Knows n := by
  have hlt : ∀ x y : UInt64, decide (x < y) = true ↔ x.toNat < y.toNat := by
    intro x y
    rw [decide_eq_true_iff, UInt64.lt_iff_toNat_lt]
  rw [otherIsGreater, Bool.and_eq_true]
  refine (and_congr (all_iter (r := (· < ·)) hlt) (any_iter (r := (· < ·)) hlt)).trans ?_
  refine and_congr_right fun hall => exists_congr fun n => ?_
  exact and_iff_left_of_imp (hall n)

lemma lt_of_otherIsGreater (h : a.otherIsGreater b = true) : b.time < a.time := by
  obtain ⟨hall, n, hn⟩ := otherIsGreater_iff.mp h
  rw [Pi.lt_def]
  refine ⟨fun m => ?_, n, (hall n hn).2⟩
  by_cases hm : b.Knows m
  · exact (hall m hm).2.le
  · rw [time_of_unknown hm]
    exact Nat.zero_le _

lemma exists_lt_of_selfIsGreater (h : a.selfIsGreater b = true) : ∃ n, b.time n < a.time n := by
  obtain ⟨n, _, _, hn⟩ := (selfIsGreater_iff.mp h).2
  exact ⟨n, hn⟩

/-- Of two clocks the later one is taken for greater if the other one has all its nodes. -/
lemma selfIsGreater_of_lt (h : b.time < a.time) :
    a.selfIsGreater b = true ↔ ∀ n, a.Knows n → b.Knows n := by
  rw [selfIsGreater_iff]
  constructor
  · exact fun hg n hn => (hg.1 n hn).1
  · intro hsub
    obtain ⟨hle, n, hn⟩ := Pi.lt_def.mp h
    have ha : a.Knows n := knows_of_time_pos (Nat.zero_lt_of_lt hn)
    exact ⟨fun m hm => ⟨hsub m hm, hle m⟩, n, ha, hsub n ha, hn⟩

lemma compareWith_eq_before : a.compareWith b = .before ↔
    a.otherIsGreater b = true ∧ a.selfIsGreater b = false := by
  unfold compareWith
  cases a.selfIsGreater b <;> cases a.otherIsGreater b <;> decide

lemma compareWith_eq_after : a.compareWith b = .after ↔
    a.selfIsGreater b = true ∧ a.otherIsGreater b = false := by
  unfold compareWith
  cases a.selfIsGreater b <;> cases a.otherIsGreater b <;> decide

lemma compareWith_eq_equal : a.compareWith b = .equal ↔
    a.selfIsGreater b = false ∧ a.otherIsGreater b = false := by
  unfold compareWith
  cases a.selfIsGreater b <;> cases a.otherIsGreater b <;> decide

lemma compareWith_eq_concurrent : a.compareWith b = .concurrent ↔
    a.selfIsGreater b = true ∧ a.otherIsGreater b = true := by
  unfold compareWith
  cases a.selfIsGreater b <;> cases a.otherIsGreater b <;> decide

/-- A later clock is told to be later if the other one has all its nodes and the two agree on one
that the other has. -/
lemma compareWith_of_lt (h : b.time < a.time) : a.compareWith b = .after ↔
    (∀ n, a.Knows n → b.Knows n) ∧ ∃ n, b.Knows n ∧ a.time n = b.time n := by
  rw [compareWith_eq_after, selfIsGreater_of_lt h, ← Bool.not_eq_true, otherIsGreater_iff]
  refine and_congr_right fun hsub => ?_
  obtain ⟨hle, m, hm⟩ := Pi.lt_def.mp h
  have hsome : ∃ n, b.Knows n := ⟨m, hsub m (knows_of_time_pos (Nat.zero_lt_of_lt hm))⟩
  rw [and_iff_left hsome]
  push Not
  refine exists_congr fun n => and_congr_right fun hn => ?_
  constructor
  · intro hno
    by_cases ha : a.Knows n
    · exact (hno ha).antisymm (hle n)
    · have hzero := time_of_unknown ha
      have hn : b.time n ≤ a.time n := hle n
      omega
  · exact fun heq _ => heq.le

/-- The verdict is the causal one exactly if the clocks agree everywhere, or the first is later, the
second has all its nodes, and they agree on a node of the second. -/
theorem compareWith_causal_iff (a b : VectorClock K A) :
    a.compareWith b = .causal a.time b.time ↔ a.time = b.time ∨
      b.time ≤ a.time ∧ (∀ n, a.timestamps.containsKey n → b.timestamps.containsKey n) ∧
        ∃ n, b.timestamps.containsKey n ∧ a.time n = b.time n := by
  have hknows : ∀ (c : VectorClock K A) n, c.timestamps.containsKey n = true ↔ c.Knows n :=
    fun c n => HashMap.containsKey_iff
  simp only [hknows]
  have hself : a.selfIsGreater b = true → ¬ a.time ≤ b.time := by
    intro hg hle
    obtain ⟨n, hn⟩ := exists_lt_of_selfIsGreater hg
    exact (hle n).not_gt hn
  have hother : a.otherIsGreater b = true → b.time < a.time := lt_of_otherIsGreater
  rcases VectorClockOrdering.causal_cases a.time b.time with
    ⟨h, hv⟩ | ⟨h, hv⟩ | ⟨h, hv⟩ | ⟨⟨h, h'⟩, hv⟩
  · rw [hv, compareWith_eq_before]
    refine iff_of_false (fun hb => (hother hb.1).not_gt h) ?_
    rintro (heq | ⟨hle, _⟩)
    · exact h.ne heq
    · exact h.not_ge hle
  · rw [hv, compareWith_of_lt h]
    exact ⟨fun hb => .inr ⟨h.le, hb⟩, fun hb => hb.elim (fun heq => absurd heq h.ne') And.right⟩
  · rw [hv, compareWith_eq_equal, ← Bool.not_eq_true, ← Bool.not_eq_true]
    exact iff_of_true ⟨fun hg => hself hg h.le, fun hg => (hother hg).ne' h⟩ (.inl h)
  · rw [hv, compareWith_eq_concurrent]
    refine iff_of_false (fun hb => h' (hother hb.2).le) ?_
    rintro (heq | ⟨hle, _⟩)
    · exact h heq.le
    · exact h' hle

lemma time_new (nodeId : NodeId K A) : (new nodeId).time = 0 := by
  funext n
  rw [time, new, HashMap.get_insert]
  split_ifs
  · rfl
  · rw [HashMap.get_empty]
    rfl

lemma time_updateFrom (c : VectorClock K A) (sender : NodeId K A) (senderTimestamp : UInt64) :
    (c.updateFrom sender senderTimestamp).time =
      Function.update c.time sender (max (c.time sender) senderTimestamp.toNat) := by
  funext n
  rw [time, updateFrom, HashMap.get_insert, Function.update_apply]
  split_ifs with hn
  · exact UInt64.toNat_max _ _
  · rfl

lemma time_increment (h : c.increment = .ok a) :
    a.time = Function.update c.time c.nodeId (c.time c.nodeId + 1) := by
  dsimp only [increment] at h
  split_ifs at h with hlt
  cases h
  funext n
  rw [time, HashMap.get_insert, Function.update_apply]
  split_ifs with hn
  · exact (UInt64.toNat_add _ 1).trans (Nat.mod_eq_of_lt hlt)
  · rfl

lemma lt_increment (h : c.increment = .ok a) : c.time < a.time := by
  rw [time_increment h, Pi.lt_def]
  refine ⟨fun n => ?_, c.nodeId, ?_⟩
  · rw [Function.update_apply]
    split_ifs with hn
    · rw [hn]
      exact Nat.le_succ _
    · exact le_rfl
  · rw [Function.update_self]
    exact Nat.lt_succ_self _

/-- A tick is told from the time before it only where the clock has other nodes. -/
theorem compareWith_increment (h : c.increment = .ok a) (hown : c.Knows c.nodeId) :
    a.compareWith c = .after ↔ ∃ n, n ≠ c.nodeId ∧ c.Knows n := by
  have htime := time_increment h
  have hsub : ∀ n, a.Knows n → c.Knows n := by
    rintro n ⟨ts, hget⟩
    by_cases hn : n = c.nodeId
    · exact hn ▸ hown
    · dsimp only [increment] at h
      split_ifs at h
      cases h
      exact ⟨ts, by rwa [HashMap.get_insert_of_ne hn] at hget⟩
  rw [compareWith_of_lt (lt_increment h), and_iff_right hsub]
  refine exists_congr fun n => ?_
  rw [htime, Function.update_apply, and_comm]
  split_ifs with hn
  · subst hn
    simp
  · simp [hn]

/-- The first tick of a node is told to be no later than its start, and its start no earlier. -/
theorem first_tick_misread : ∃ c, (new ⟨[], 0⟩ : VectorClock ℕ ℕ).increment = .ok c ∧
    (new ⟨[], 0⟩).compareWith c = .equal ∧ c.compareWith (new ⟨[], 0⟩) = .concurrent ∧
    VectorClockOrdering.causal (new ⟨[], 0⟩ : VectorClock ℕ ℕ).time c.time = .before ∧
    VectorClockOrdering.causal c.time (new ⟨[], 0⟩ : VectorClock ℕ ℕ).time = .after := by
  have hbefore := VectorClockOrdering.causal_of_lt
    (lt_increment (c := (new ⟨[], 0⟩ : VectorClock ℕ ℕ)) rfl)
  refine ⟨_, rfl, by decide, by decide, hbefore, ?_⟩
  rw [VectorClockOrdering.causal_swap, hbefore]
  rfl

end VectorClock

end QuicP2p.P2p
