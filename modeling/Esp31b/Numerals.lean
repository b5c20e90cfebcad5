import Mathlib.Data.Nat.Digits.Lemmas

/-!
# Numerals

A number is written by dividing it by the base, which gives its digits from the
lowest one on; the last division has the quotient 0, so the number 0 has one digit
too (`Nat.lowDigits`). What is written is canonical because the highest digit is
not 0 but for the number 0 itself, and it is read back by the value of its digits.
-/

namespace Nat

/-- **The digits from the lowest one on**, of which 0 has one. -/
def lowDigits (base n : ℕ) : List ℕ := if n = 0 then [0] else digits base n

variable {base n k : ℕ}

/-- **One division**: a digit, and those of the quotient unless it is 0. -/
theorem lowDigits_eq (hbase : 1 < base) (n : ℕ) :
    lowDigits base n =
      n % base :: if n / base = 0 then [] else lowDigits base (n / base) := by
  unfold lowDigits
  by_cases hn : n = 0
  · rw [if_pos hn, hn, Nat.zero_mod, Nat.zero_div, if_pos rfl]
  · rw [if_neg hn, digits_def' hbase (Nat.pos_of_ne_zero hn)]
    split
    · rename_i hquotient
      rw [hquotient, digits_zero]
    · rfl

theorem lowDigits_ne_nil : lowDigits base n ≠ [] := by
  unfold lowDigits
  split
  · exact List.cons_ne_nil _ _
  · exact digits_ne_nil_iff_ne_zero.mpr ‹_›

theorem lowDigits_lt (hbase : 1 < base) : ∀ d ∈ lowDigits base n, d < base := by
  unfold lowDigits
  split
  · intro d hd
    obtain rfl := List.mem_singleton.mp hd
    omega
  · exact fun d hd => digits_lt_base hbase hd

/-- **Their value is the number.** -/
theorem ofDigits_lowDigits (base n : ℕ) : ofDigits base (lowDigits base n) = n := by
  unfold lowDigits
  split
  · rename_i hn
    rw [hn, ofDigits_singleton]
  · exact ofDigits_digits base n

/-- A number of `k` bits has no more than `k` digits. -/
theorem length_lowDigits_le (hbase : 1 < base) (hk : 0 < k) (hn : n < 2 ^ k) :
    (lowDigits base n).length ≤ k := by
  unfold lowDigits
  split
  · exact hk
  · exact (digits_length_le_iff hbase n).mpr
      (hn.trans_le (Nat.pow_le_pow_left hbase k))

end Nat
