import Mathlib.Tactic.Linarith
import Mathlib.Tactic.Ring

/-! Timers that are set anew each time they run, by a clock that goes on in steps. -/

namespace QuicP2p.Library

/-- A timer has run `k` times by now, and runs again when it is due. Each of its intervals lasts
from `base` to `limit`, and no step of the clock is longer than `tick`. -/
structure Paced (base limit tick k now due : ℕ) : Prop where
  ran : k * base ≤ now
  rests : (k + 1) * base ≤ due
  soon : due ≤ (k + 1) * limit + k * tick
  waits : now < due

namespace Paced

variable {base limit tick k now now' due interval : ℕ}

lemma start (hpos : 0 < base) (hbase : base ≤ interval) (hlimit : interval ≤ limit) :
    Paced base limit tick 0 0 interval where
  ran := by omega
  rests := by omega
  soon := by omega
  waits := by omega

lemma wait (h : Paced base limit tick k now due) (hle : now ≤ now') (hdue : now' < due) :
    Paced base limit tick k now' due where
  ran := h.ran.trans hle
  rests := h.rests
  soon := h.soon
  waits := hdue

/-- The timer runs at the first step that reaches its time, and is late by less than a step. -/
lemma fire (h : Paced base limit tick k now due) (hpos : 0 < base) (hdue : due ≤ now')
    (hstep : now' ≤ now + tick) (hbase : base ≤ interval) (hlimit : interval ≤ limit) :
    Paced base limit tick (k + 1) now' (now' + interval) where
  ran := h.rests.trans hdue
  rests := by
    have hran := h.rests.trans hdue
    rw [add_mul, one_mul]
    omega
  soon := by
    have hlate : now' ≤ due + tick := hstep.trans (Nat.add_le_add_right h.waits.le tick)
    have hsoon := h.soon
    calc now' + interval ≤ (k + 1) * limit + k * tick + tick + limit := by omega
      _ = (k + 1 + 1) * limit + (k + 1) * tick := by ring
  waits := by omega

lemma bounds (h : Paced base limit tick k now due) :
    k * base ≤ now ∧ now < (k + 1) * limit + k * tick :=
  ⟨h.ran, h.waits.trans_le h.soon⟩

end Paced

end QuicP2p.Library
