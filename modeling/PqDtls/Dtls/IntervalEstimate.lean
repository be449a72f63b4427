import PqDtls.Dtls.Ntp
import Mathlib.Tactic.FieldSimp
import Mathlib.Tactic.Linarith
import Mathlib.Algebra.Order.Field.Rat

/-! # The interval estimate

    `NTP_TO_DOUBLE` divides the seconds by a million and adds the microseconds as they
    are.  `NTP_sub` splits a difference of two such numbers into an integer and a
    fraction, and `NTP_TO_DOUBLE` of these two is the elapsed time again, as long as the
    fraction was made of the seconds and the integer of the microseconds.
    **`followsTime_iff`** says how long that is. -/

namespace PqDtls.Dtls

/-! ## Truncation -/

theorem truncate_intCast (n : Int) : truncate n = n := by
  rw [truncate, Rat.num_intCast, Rat.den_intCast, Nat.cast_one, Int.tdiv_one]

/-- The integer part of a fraction. -/
theorem truncate_div (n : Int) {d : Nat} (hd : 0 < d) : truncate ((n : Rat) / d) = n.tdiv d := by
  generalize hx : (n : Rat) / d = x
  have cross : x.num * d = n * x.den := by
    have hd' : (d : Rat) ≠ 0 := Nat.cast_ne_zero.mpr (by omega)
    have den : (x.den : Rat) ≠ 0 := Nat.cast_ne_zero.mpr x.den_nz
    have same : (x.num : Rat) / x.den = n / d := by rw [Rat.num_div_den, hx]
    rw [div_eq_div_iff den hd'] at same
    exact_mod_cast same
  have left : (x.num * d).tdiv (x.den * d) = x.num.tdiv x.den :=
    Int.mul_tdiv_mul_of_pos_left _ _ (by omega)
  have right : (n * x.den).tdiv (d * x.den) = n.tdiv d :=
    Int.mul_tdiv_mul_of_pos_left _ _ (by have := x.den_pos; omega)
  rw [truncate, ← left, cross, mul_comm (x.den : Int), right]

/-- A number that was reduced to 64 bits, as a signed one. -/
theorem toInt64_of_mod {x : Int} {n : Nat} (h : (n : Int) = x % ((2 ^ 64 : Nat) : Int))
    (hlo : -2 ^ 63 ≤ x) (hhi : x < 2 ^ 63) : toInt64 n = x := by
  have same : toInt64 n = x.bmod (2 ^ 64) := by
    unfold toInt64
    rw [h]
    exact Int.emod_bmod _ _
  refine same.trans (Int.bmod_eq_of_le_mul_two ?_ ?_)
  · push_cast
    omega
  · push_cast
    omega

theorem toInt64_sizeT {x : Int} (hlo : -2 ^ 63 ≤ x) (hhi : x < 2 ^ 63) :
    toInt64 (sizeT x) = x := by
  refine toInt64_of_mod ?_ hlo hhi
  rw [sizeT, Int.toNat_of_nonneg (by omega)]
  norm_num

/-! ## What the estimate is -/

/-- `test1` of the safety test. -/
def intervalEstimate (T0 t : Timeval) : Rat := ntpToDouble (ntpSub t T0)

/-- The difference that `NTP_sub` splits, in millionths: the seconds, and a million for every
    microsecond. -/
def swapped (T0 t : Timeval) : Int := (t.tvSec - T0.tvSec) + 1000000 * (t.tvUsec - T0.tvUsec)

/-- **THE ESTIMATE**: the integer part counts millionths, the rest counts ones. -/
theorem intervalEstimate_eq {T0 t : Timeval} (hlo : -2 ^ 63 ≤ (swapped T0 t).tdiv 1000000)
    (hhi : (swapped T0 t).tdiv 1000000 < 2 ^ 63) :
    intervalEstimate T0 t
      = (swapped T0 t).tdiv 1000000 / 1000000 + ((swapped T0 t).tmod 1000000 : Int) := by
  have difference : ntpToDouble t - ntpToDouble T0 = (swapped T0 t : Rat) / (1000000 : Nat) := by
    simp only [ntpToDouble, fracMax, swapped]
    push_cast
    ring
  have rest : ((swapped T0 t : Rat) / (1000000 : Nat) - ((swapped T0 t).tdiv 1000000 : Int))
      * 1000000 = ((swapped T0 t).tmod 1000000 : Int) := by
    have split := Int.tmod_add_mul_tdiv (swapped T0 t) 1000000
    have split' : (swapped T0 t : Rat)
        = ((swapped T0 t).tmod 1000000 : Int) + 1000000 * ((swapped T0 t).tdiv 1000000 : Int) := by
      exact_mod_cast split.symm
    push_cast
    linarith
  rw [intervalEstimate, ntpSub, difference, splitTime, truncate_div _ (by decide)]
  have seconds : ((1000000 : Nat) : Int) = 1000000 := rfl
  simp only [seconds, toInt64_sizeT hlo hhi, fracMax, rest, truncate_intCast, ntpToDouble]

/-- A time stamp with less than a second of microseconds. -/
structure Timeval.Normalised (t : Timeval) : Prop where
  nonneg : 0 ≤ t.tvUsec
  lt : t.tvUsec < 1000000

/-- The time in microseconds. -/
def Timeval.micros (t : Timeval) : Int := 1000000 * t.tvSec + t.tvUsec

/-- From `T0` to `t` the estimate follows time. -/
structure FollowsTime (T0 t : Timeval) : Prop where
  mono : ∀ t1 t2 : Timeval, t1.Normalised → t2.Normalised → T0.micros ≤ t1.micros →
    t1.micros ≤ t2.micros → t2.micros ≤ t.micros → intervalEstimate T0 t1 ≤ intervalEstimate T0 t2
  zero : ∀ t1 : Timeval, t1.Normalised → T0.micros ≤ t1.micros → t1.micros ≤ t.micros →
    intervalEstimate T0 t1 = 0 → t1 = T0

/-- Less than a million seconds have passed, and the microseconds did not start again below
    those of the start. -/
def Countable (T0 t : Timeval) : Prop :=
  t.tvSec - T0.tvSec < 1000000 ∧ (T0.tvUsec = 0 ∨ t.tvSec = T0.tvSec)

variable {T0 t : Timeval}

/-- Then the estimate is the elapsed time in seconds. -/
theorem intervalEstimate_elapsed (usec : T0.tvUsec ≤ t.tvUsec) (lt : t.tvUsec - T0.tvUsec < 1000000)
    (sec : T0.tvSec ≤ t.tvSec) (soon : t.tvSec - T0.tvSec < 1000000) :
    intervalEstimate T0 t = ((t.micros - T0.micros : Int) : Rat) / 1000000 := by
  have quotient : (swapped T0 t).tdiv 1000000 = t.tvUsec - T0.tvUsec := by
    rw [swapped, Int.tdiv_eq_ediv_of_nonneg (by omega)]
    omega
  have remainder : (swapped T0 t).tmod 1000000 = t.tvSec - T0.tvSec := by
    rw [swapped, Int.tmod_eq_emod_of_nonneg (by omega)]
    omega
  rw [intervalEstimate_eq (by rw [quotient]; omega) (by rw [quotient]; omega), quotient, remainder,
    Timeval.micros, Timeval.micros]
  push_cast
  ring

/-- The estimate at the start. -/
theorem intervalEstimate_self (T0 : Timeval) : intervalEstimate T0 T0 = 0 := by
  rw [intervalEstimate_elapsed le_rfl (by omega) le_rfl (by omega), sub_self, Int.cast_zero,
    zero_div]

theorem followsTime_of_countable (h0 : T0.Normalised) (countable : Countable T0 t)
    (ht : t.Normalised) : FollowsTime T0 t := by
  obtain ⟨soon, microseconds⟩ := countable
  -- until `t` the microseconds are never below those of the start
  have elapsed (t1 : Timeval) (h1 : t1.Normalised) (lo : T0.micros ≤ t1.micros)
      (hi : t1.micros ≤ t.micros) :
      intervalEstimate T0 t1 = ((t1.micros - T0.micros : Int) : Rat) / 1000000 := by
    have n0 := h0.nonneg
    have l0 := h0.lt
    have n1 := h1.nonneg
    have l1 := h1.lt
    have l := ht.lt
    have n := ht.nonneg
    unfold Timeval.micros at lo hi
    refine intervalEstimate_elapsed ?_ (by omega) (by omega) (by omega)
    rcases microseconds with none | same
    · omega
    · omega
  refine ⟨fun t1 t2 h1 h2 lo le hi => ?_, fun t1 h1 lo hi zero => ?_⟩
  · rw [elapsed t1 h1 lo (by omega), elapsed t2 h2 (by omega) hi]
    have cast : ((t1.micros - T0.micros : Int) : Rat) ≤ ((t2.micros - T0.micros : Int) : Rat) :=
      Int.cast_le.mpr (by omega)
    linarith
  · rw [elapsed t1 h1 lo hi, div_eq_zero_iff] at zero
    have same : t1.micros - T0.micros = 0 := by
      rcases zero with zero | zero
      · exact_mod_cast zero
      · norm_num at zero
    have n0 := h0.nonneg
    have l0 := h0.lt
    have n1 := h1.nonneg
    have l1 := h1.lt
    unfold Timeval.micros at same
    cases t1
    cases T0
    simp only [Timeval.mk.injEq] at *
    omega

/-- After a million seconds the estimate starts again. -/
theorem intervalEstimate_restarts (T0 : Timeval) :
    intervalEstimate T0 ⟨T0.tvSec + 1000000, T0.tvUsec⟩
      < intervalEstimate T0 ⟨T0.tvSec + 999999, T0.tvUsec⟩ := by
  have before : intervalEstimate T0 ⟨T0.tvSec + 999999, T0.tvUsec⟩ = 999999 := by
    have later : T0.tvSec ≤ T0.tvSec + 999999 := by omega
    have soon : T0.tvSec + 999999 - T0.tvSec < 1000000 := by omega
    rw [@intervalEstimate_elapsed T0 ⟨T0.tvSec + 999999, T0.tvUsec⟩ le_rfl
      (by rw [sub_self]; decide) later soon]
    simp only [Timeval.micros]
    push_cast
    ring
  have after : swapped T0 ⟨T0.tvSec + 1000000, T0.tvUsec⟩ = 1000000 := by
    simp only [swapped]
    omega
  rw [before, intervalEstimate_eq (by rw [after]; decide) (by rw [after]; decide), after]
  norm_num

/-- With the next second the microseconds start again, and the estimate is negative. -/
theorem intervalEstimate_negative (pos : 0 < T0.tvUsec) (lt : T0.tvUsec < 1000000) :
    intervalEstimate T0 ⟨T0.tvSec + 1, 0⟩ < 0 := by
  have n : swapped T0 ⟨T0.tvSec + 1, 0⟩ = -(1000000 * (T0.tvUsec - 1) + 999999) := by
    simp only [swapped]
    omega
  have quotient : (swapped T0 ⟨T0.tvSec + 1, 0⟩).tdiv 1000000 = -(T0.tvUsec - 1) := by
    rw [n, Int.neg_tdiv, Int.tdiv_eq_ediv_of_nonneg (by omega)]
    omega
  have remainder : (swapped T0 ⟨T0.tvSec + 1, 0⟩).tmod 1000000 = -999999 := by
    rw [n, Int.neg_tmod, Int.tmod_eq_emod_of_nonneg (by omega)]
    omega
  rw [intervalEstimate_eq (by rw [quotient]; omega) (by rw [quotient]; omega), quotient, remainder]
  have cast : (0 : Rat) ≤ ((T0.tvUsec - 1 : Int) : Rat) := by exact_mod_cast (by omega)
  push_cast at cast ⊢
  linarith

/-- **THE ESTIMATE FOLLOWS TIME** from the start to `t` exactly as long as less than a million
    seconds have passed, within one second if the start has microseconds. -/
theorem followsTime_iff (h0 : T0.Normalised) (ht : t.Normalised) (le : T0.micros ≤ t.micros) :
    FollowsTime T0 t ↔ Countable T0 t := by
  refine ⟨fun follows => ?_, fun countable => followsTime_of_countable h0 countable ht⟩
  have l0 := h0.lt
  have n0 := h0.nonneg
  have l := ht.lt
  have n := ht.nonneg
  unfold Timeval.micros at le
  have microseconds : T0.tvUsec = 0 ∨ t.tvSec = T0.tvSec := by
    by_contra other
    rw [not_or] at other
    have next : (⟨T0.tvSec + 1, 0⟩ : Timeval).Normalised := ⟨le_rfl, by norm_num⟩
    have negative := intervalEstimate_negative (by omega) l0
    have rise := follows.mono T0 ⟨T0.tvSec + 1, 0⟩ h0 next le_rfl
      (by simp only [Timeval.micros]; omega) (by simp only [Timeval.micros]; omega)
    rw [intervalEstimate_self] at rise
    exact absurd rise (not_le.mpr negative)
  refine ⟨?_, microseconds⟩
  by_contra late
  have rise := follows.mono ⟨T0.tvSec + 999999, T0.tvUsec⟩ ⟨T0.tvSec + 1000000, T0.tvUsec⟩
    ⟨n0, l0⟩ ⟨n0, l0⟩ (by simp only [Timeval.micros]; omega) (by simp only [Timeval.micros]; omega)
    (by simp only [Timeval.micros]; omega)
  exact absurd rise (not_le.mpr (intervalEstimate_restarts T0))

theorem followsTime_iff_hour :
    FollowsTime ⟨1700000000, 0⟩ ⟨1700003600, 500000⟩ ↔
      Countable ⟨1700000000, 0⟩ ⟨1700003600, 500000⟩ :=
  followsTime_iff ⟨le_rfl, by norm_num⟩ ⟨by norm_num, by norm_num⟩ (by decide)

/-- Eleven and a half days after the start. -/
theorem followsTime_restarts :
    ¬ ∀ T0 t1 t2 : Timeval, T0.Normalised → t1.Normalised → t2.Normalised →
      T0.micros ≤ t1.micros → t1.micros ≤ t2.micros →
      intervalEstimate T0 t1 ≤ intervalEstimate T0 t2 ∧ (intervalEstimate T0 t1 = 0 → t1 = T0) := by
  intro all
  have normal (s : Int) : (⟨s, 0⟩ : Timeval).Normalised := ⟨le_rfl, by norm_num⟩
  have rise := (all ⟨1700000000, 0⟩ ⟨1700000000 + 999999, 0⟩ ⟨1700000000 + 1000000, 0⟩ (normal _)
    (normal _) (normal _) (by decide) (by decide)).1
  exact absurd rise (not_le.mpr (intervalEstimate_restarts ⟨1700000000, 0⟩))

end PqDtls.Dtls
