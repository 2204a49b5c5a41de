import StatusRelay.Limiter
import Mathlib.Algebra.Order.Ring.Nat
import Mathlib.Tactic.NormNum

/-!
# Doubling waits

The wait for one item starts at `base`, doubles with every failure and stops at `max`. The factor
doubles 31 times and no further. So the wait follows the curve `min (base · 2 ^ failures) max` for
ever exactly if these doublings suffice to take `base` to `max`; otherwise it stops short of `max`,
at `base · 2 ^ 31`. That a product need not fit a duration makes no difference, since `max` does.
-/
namespace StatusRelay

/-- The seconds of a duration are a 64-bit word. -/
def Duration.Fits (d : Duration) : Prop := d.nanos < Duration.limit

instance (d : Duration) : Decidable d.Fits := inferInstanceAs (Decidable (_ < _))

namespace Limiter

variable {base max : Duration} {n : Nat}

/-- How often the wait doubles. -/
def doublings : Nat := 31

/-- What the waits for single items are called for: doubling without end, cut off at `max`. -/
def curve (base max : Duration) (n : Nat) : Nat := min (base.nanos * 2 ^ n) max.nanos

theorem nanos_delayFor (hmax : max.Fits) (n : Nat) :
    (delayFor base max n).nanos = curve base max (min n doublings) := by
  have hpow : Nat.pow 2 (min n 31) = 2 ^ min n doublings := rfl
  rw [delayFor, hpow, Duration.mul?, curve]
  by_cases hfits : base.nanos * 2 ^ min n doublings < Duration.limit
  · rw [if_pos hfits]
    exact Duration.min_nanos _ _
  · have hle : max.nanos ≤ base.nanos * 2 ^ min n doublings := by
      rw [Duration.Fits] at hmax
      omega
    rw [if_neg hfits, Nat.min_eq_right hle]

theorem curve_mono (base max : Duration) : Monotone (curve base max) := by
  intro m n h
  have hpow : 2 ^ m ≤ 2 ^ n := Nat.pow_le_pow_right (by decide) h
  exact min_le_min_right _ (Nat.mul_le_mul_left _ hpow)

theorem curve_le_max (base max : Duration) (n : Nat) : curve base max n ≤ max.nanos :=
  min_le_right _ _

theorem curve_eq_max_iff : curve base max n = max.nanos ↔ max.nanos ≤ base.nanos * 2 ^ n :=
  min_eq_right_iff

/-- Beyond `m` doublings the curve goes on rising, unless it has nothing to double or is at
`max`. -/
theorem curve_eq_of_lt_iff {m : Nat} (h : m < n) :
    curve base max m = curve base max n ↔
      base.nanos = 0 ∨ max.nanos ≤ base.nanos * 2 ^ m := by
  constructor
  · intro he
    by_contra hnot
    rw [not_or, not_le] at hnot
    obtain ⟨hbase, hmax⟩ := hnot
    have hrises : base.nanos * 2 ^ m < base.nanos * 2 ^ n :=
      Nat.mul_lt_mul_of_pos_left (Nat.pow_lt_pow_right (by decide) h) (Nat.pos_of_ne_zero hbase)
    have hm : curve base max m = base.nanos * 2 ^ m := min_eq_left hmax.le
    have hn : curve base max m < curve base max n := hm.trans_lt (lt_min hrises hmax)
    omega
  · rintro (hzero | hmax)
    · simp [curve, hzero]
    · have hm : curve base max m = max.nanos := curve_eq_max_iff.mpr hmax
      have hle : curve base max m ≤ curve base max n := curve_mono base max h.le
      have hn : curve base max n ≤ max.nanos := curve_le_max base max n
      omega

theorem delayFor_eq_max_iff (hmax : max.Fits) (n : Nat) :
    delayFor base max n = max ↔ max.nanos ≤ base.nanos * 2 ^ min n doublings := by
  rw [← curve_eq_max_iff, ← nanos_delayFor hmax]
  exact ⟨congrArg Duration.nanos, fun h => congrArg Duration.mk h⟩

theorem mul_pow_le_doublings (base : Duration) (n : Nat) :
    base.nanos * 2 ^ min n doublings ≤ base.nanos * 2 ^ doublings :=
  Nat.mul_le_mul_left _ (Nat.pow_le_pow_right (by decide) (min_le_right n doublings))

/-- The wait follows the curve of a factor that doubles 31 times. It follows the curve without such
an end exactly as long as the failures are no more than that, or there is nothing to double, or
`max` has been reached by then; and it ever reaches `max`, to stay there, exactly if it does so
within these doublings. -/
theorem wait_follows_curve_iff (hmax : max.Fits) (n : Nat) :
    (delayFor base max n).nanos = min (base.nanos * 2 ^ min n 31) max.nanos ∧
    ((delayFor base max n).nanos = min (base.nanos * 2 ^ n) max.nanos ↔
      n ≤ 31 ∨ base.nanos = 0 ∨ max.nanos ≤ base.nanos * 2 ^ 31) ∧
    ((∃ m, delayFor base max m = max) ↔ max.nanos ≤ base.nanos * 2 ^ 31) ∧
    (max.nanos ≤ base.nanos * 2 ^ 31 → 31 ≤ n → delayFor base max n = max) := by
  have hwait : (delayFor base max n).nanos = curve base max (min n doublings) :=
    nanos_delayFor hmax n
  refine ⟨hwait, ?_, ?_, fun hreach hn => ?_⟩
  · rw [hwait]
    by_cases hn : n ≤ 31
    · have hsame : min n doublings = n := min_eq_left hn
      rw [hsame]
      exact iff_of_true rfl (Or.inl hn)
    · have hstop : min n doublings = doublings := min_eq_right (not_le.mp hn).le
      rw [hstop, or_iff_right hn]
      exact curve_eq_of_lt_iff (not_le.mp hn)
  · constructor
    · rintro ⟨m, hm⟩
      exact ((delayFor_eq_max_iff hmax m).mp hm).trans (mul_pow_le_doublings base m)
    · intro hreach
      exact ⟨31, (delayFor_eq_max_iff hmax 31).mpr hreach⟩
  · have hstop : min n doublings = doublings := min_eq_right hn
    rw [delayFor_eq_max_iff hmax, hstop]
    exact hreach

/-- The agent's own waits, from 5 ms to 1000 s, follow the curve after any number of failures. -/
theorem wait_follows_curve_of_agent :
    Duration.Fits (.ofSeconds 1000) ∧
      (delayFor (.ofMillis 5) (.ofSeconds 1000) 100).nanos = min (5000000 * 2 ^ 100) 1000000000000 ∧
      delayFor (.ofMillis 5) (.ofSeconds 1000) 31 = .ofSeconds 1000 := by
  have hmax : Duration.Fits (.ofSeconds 1000) := by decide
  have hreach : (Duration.ofSeconds 1000).nanos ≤ (Duration.ofMillis 5).nanos * 2 ^ 31 := by decide
  obtain ⟨-, hcurve, -, -⟩ := @wait_follows_curve_iff (.ofMillis 5) (.ofSeconds 1000) hmax 100
  obtain ⟨-, -, -, hstays⟩ := @wait_follows_curve_iff (.ofMillis 5) (.ofSeconds 1000) hmax 31
  exact ⟨hmax, hcurve.mpr (Or.inr (Or.inr hreach)), hstays hreach (le_refl 31)⟩

/-- From one nanosecond 40 doublings would lead beyond 1000 s; the wait stops after two seconds and
never gets there. -/
theorem wait_stops_short :
    (delayFor ⟨1⟩ (.ofSeconds 1000) 40).nanos ≠ min (1 * 2 ^ 40) (Duration.ofSeconds 1000).nanos ∧
      ¬ ∃ n, delayFor ⟨1⟩ (.ofSeconds 1000) n = .ofSeconds 1000 := by
  refine ⟨by decide, ?_⟩
  rintro ⟨n, hn⟩
  have hmax : Duration.Fits (.ofSeconds 1000) := by decide
  have hreach := ((delayFor_eq_max_iff hmax n).mp hn).trans (mul_pow_le_doublings ⟨1⟩ n)
  exact absurd hreach (by decide)

end Limiter
end StatusRelay
