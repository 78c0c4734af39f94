import Mathlib.Algebra.Order.Floor.Ring
import Mathlib.Tactic.Linarith

/-!
# Times in whole seconds

A time that is read in whole seconds is off by less than one. `lt_of_ceil_le` is what a comparison of
rounded times says of the times themselves.
-/

namespace JenKea.Clock

variable {K : Type} [Field K] [LinearOrder K] [IsStrictOrderedRing K] [FloorRing K]

/-- A time that is, rounded up, no later than a clock, rounded down, less a whole age is less than a second
after the event of that age, where the age was taken no earlier than the clock was read. -/
theorem lt_of_ceil_le {written asked heard event : K} (hheard : asked ≤ heard)
    (h : ⌈written⌉ ≤ ⌊asked⌋ - ⌊heard - event⌋) : written < event + 1 := by
  have hceil : written ≤ (⌈written⌉ : K) := Int.le_ceil written
  have hfloor : (⌊asked⌋ : K) ≤ asked := Int.floor_le asked
  have hage : heard - event < (⌊heard - event⌋ : K) + 1 := Int.lt_floor_add_one (heard - event)
  have hcast : (⌈written⌉ : K) ≤ (⌊asked⌋ : K) - (⌊heard - event⌋ : K) := by exact_mod_cast h
  calc written ≤ (⌊asked⌋ : K) - (⌊heard - event⌋ : K) := hceil.trans hcast
    _ ≤ asked - (⌊heard - event⌋ : K) := by linarith
    _ < asked - (heard - event) + 1 := by linarith
    _ ≤ event + 1 := by linarith

end JenKea.Clock
