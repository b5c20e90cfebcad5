import Mathlib.Data.List.Nodup
import Mathlib.Data.Nat.ModEq

/-!
# Windows of a ring

Whoever goes round a ring of `m` places passes them in the order of the numbers,
modulo `m`. A window is what was passed in a row: it loses its first place or
gets the next one, and it has no place twice as long as it is not longer than
the ring.
-/

namespace List

/-- The places passed from number `lo` on. -/
def window (m lo n : ℕ) : List ℕ := (List.range' lo n).map (· % m)

variable {m lo n k x : ℕ}

/-- The first place. -/
theorem window_cons (m lo n : ℕ) : window m lo (n + 1) = lo % m :: window m (lo + 1) n := rfl

/-- The last place. -/
theorem window_append (m lo n : ℕ) : window m lo (n + 1) = window m lo n ++ [(lo + n) % m] := by
  unfold window
  rw [List.range'_concat, List.map_append, Nat.one_mul]
  rfl

theorem mem_window : x ∈ window m lo n ↔ ∃ i, (lo ≤ i ∧ i < lo + n) ∧ i % m = x := by
  unfold window
  simp only [List.mem_map, List.mem_range'_1]

/-- Numbers of one place are a round apart. -/
theorem eq_of_mod_eq {i j : ℕ} (hij : i ≤ j) (hlt : j < i + m) (h : i % m = j % m) : i = j := by
  have hdvd : m ∣ j - i := (Nat.modEq_iff_dvd' hij).mp h
  have hzero := Nat.eq_zero_of_dvd_of_lt hdvd (by omega)
  omega

/-- **The places are different.** -/
theorem nodup_window (h : n ≤ m) : (window m lo n).Nodup := by
  refine (List.nodup_range').map_on fun i hi j hj hmod => ?_
  rw [List.mem_range'_1] at hi hj
  rcases Nat.le_total i j with hij | hji
  · exact eq_of_mod_eq hij (by omega) hmod
  · exact (eq_of_mod_eq hji (by omega) hmod.symm).symm

/-- **A place that is passed later** is not in the window, up to a round. -/
theorem mod_not_mem_window (hlo : lo + n ≤ k) (hk : k < lo + m) : k % m ∉ window m lo n := by
  intro hmem
  obtain ⟨i, hi, hmod⟩ := mem_window.mp hmem
  have heq := eq_of_mod_eq (j := k) (by omega) (by omega) hmod
  omega

end List
