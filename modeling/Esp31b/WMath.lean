import Mathlib.Algebra.Group.Int.Defs
import Mathlib.Algebra.GroupWithZero.Nat
import Mathlib.Algebra.Order.Group.Unbundled.Int
import Mathlib.Data.Nat.Basic

/-!
# Bounded random numbers

`random(howsmall, howbig)` takes a remainder modulo the span of the range and
adds the lower bound. The span is computed in a 32-bit `long`: from `2 ^ 31` on
it wraps to a negative number, and the remainder of a number that is not
negative is then one modulo what is missing to `2 ^ 32`. That is never more
than the span, so the result is in range for every range
(`randomFrom_spec`). Above a span of `2 ^ 31` it stays below the upper part of
the range, as no remainder goes so far.

The value of `rand()` is an argument.
-/

namespace WMath

/-- `%` of two `long`s; `none` for a division by zero. -/
def rem (a b : Int32) : Option Int32 := if b = 0 then none else some (a % b)

/-- `random(howbig)`. -/
def random (rand howbig : Int32) : Option Int32 :=
  if howbig = 0 then some 0 else rem rand howbig

/-- `random(howsmall, howbig)`. -/
def randomFrom (rand howsmall howbig : Int32) : Option Int32 :=
  if howsmall ≥ howbig then some howsmall
  else
    let diff := howbig - howsmall
    (random rand diff).map fun r => r + howsmall

/-- How many values `random(howsmall, howbig)` takes: the span, or what is
missing of it to `2 ^ 32`. -/
def reach (howsmall howbig : Int32) : ℤ :=
  min (howbig.toInt - howsmall.toInt) (2 ^ 32 - (howbig.toInt - howsmall.toInt))

variable {rand howsmall howbig : Int32}

/-- **The wrapped span is not zero**, and its absolute value is the reach. -/
theorem natAbs_diff (h : howsmall < howbig) :
    ((howbig - howsmall).toInt.natAbs : ℤ) = reach howsmall howbig ∧
      0 < reach howsmall howbig ∧
      reach howsmall howbig ≤ howbig.toInt - howsmall.toInt ∧
      reach howsmall howbig ≤ 2 ^ 31 := by
  rw [Int32.lt_iff_toInt_lt] at h
  have hsmall : -2 ^ 31 ≤ howsmall.toInt := howsmall.le_toInt
  have hbig : howbig.toInt < 2 ^ 31 := howbig.toInt_lt
  have hwrap : (howbig - howsmall).toInt = (howbig.toInt - howsmall.toInt).bmod (2 ^ 32) :=
    Int32.toInt_sub howbig howsmall
  rw [Int.bmod_def] at hwrap
  unfold reach
  refine ⟨?_, by omega, by omega, by omega⟩
  rw [hwrap]
  split <;> omega

/-- **What comes out**: the remainder of `rand()` modulo the reach, added to
the lower bound without a wrap. -/
theorem randomFrom_eq (h : howsmall < howbig) (hrand : 0 ≤ rand) :
    ∃ v, randomFrom rand howsmall howbig = some v ∧
      v.toInt = howsmall.toInt + rand.toInt % reach howsmall howbig := by
  obtain ⟨habs, hpos, hspan, -⟩ := natAbs_diff h
  have hdiff : howbig - howsmall ≠ 0 := by
    intro hzero
    rw [hzero] at habs
    exact absurd habs (Int.ne_of_lt hpos)
  have hrem : (rand % (howbig - howsmall)).toInt = rand.toInt % reach howsmall howbig := by
    have hnonneg : 0 ≤ rand.toInt := Int32.le_iff_toInt_le.mp hrand
    rw [Int32.toInt_mod, Int.tmod_eq_emod_of_nonneg hnonneg, ← habs, Int.natCast_natAbs,
      Int.emod_abs]
  refine ⟨rand % (howbig - howsmall) + howsmall, ?_, ?_⟩
  · have hnot : ¬howsmall ≥ howbig := Int32.not_le.mpr h
    rw [randomFrom, if_neg hnot]
    show (random rand (howbig - howsmall)).map _ = _
    rw [random, if_neg hdiff, rem, if_neg hdiff]
    rfl
  · have hlow := Int.emod_nonneg rand.toInt (Int.ne_of_gt hpos)
    have hhigh := Int.emod_lt_of_pos rand.toInt hpos
    have hsmall : -2 ^ 31 ≤ howsmall.toInt := howsmall.le_toInt
    have hbig : howbig.toInt < 2 ^ 31 := howbig.toInt_lt
    rw [Int32.toInt_add, hrem, Int.bmod_eq_of_le (by omega) (by omega), Int.add_comm]

/-- **A bounded random number is in range.** For all `howsmall < howbig`, spans
of `2 ^ 31` and more among them, and whatever `rand()` returns that is not
negative, nothing is divided by zero and the result is at least `howsmall` and
below `howbig`. -/
theorem randomFrom_spec (h : howsmall < howbig) (hrand : 0 ≤ rand) :
    ∃ v, randomFrom rand howsmall howbig = some v ∧ howsmall ≤ v ∧ v < howbig := by
  obtain ⟨-, hpos, hspan, -⟩ := natAbs_diff h
  obtain ⟨v, heq, hv⟩ := randomFrom_eq h hrand
  have hlow := Int.emod_nonneg rand.toInt (Int.ne_of_gt hpos)
  have hhigh := Int.emod_lt_of_pos rand.toInt hpos
  refine ⟨v, heq, ?_, ?_⟩
  · rw [Int32.le_iff_toInt_le, hv]
    omega
  · rw [Int32.lt_iff_toInt_lt, hv]
    omega

/-- All of the `long`s but the largest, a span of `2 ^ 32 - 1`. -/
theorem randomFrom_spec_all :
    ∃ v, randomFrom 123456789 (-2147483648) 2147483647 = some v ∧ -2147483648 ≤ v ∧
      v < 2147483647 :=
  randomFrom_spec (by decide) (by decide)

end WMath
