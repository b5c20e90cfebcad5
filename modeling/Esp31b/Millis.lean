import Mathlib.Algebra.GroupWithZero.Nat
import Mathlib.Order.Monotone.Basic
import Esp31b.Fueled

/-!
# Elapsed time

Every time-out of this core is measured the same way: `millis()` is taken at
the start, taken again later, and the unsigned difference of the two is
compared with the time allowed. The idiom survives a counter that wraps
around, as long as it is the counter itself that wraps, at `2 ^ 32`. Here it
is not: `millis()` is the microsecond counter of the SDK, which wraps at
`2 ^ 32`, divided by 1000. It returns to zero after 4294967 milliseconds, and
a difference taken across that point is off by almost `2 ^ 32`.

True time is a number of microseconds without a bound. `millis_sub_iff` says
between which two moments the difference is right: those with no wrap of the
microsecond counter in between. `Stream::timedRead` and `timedPeek` are one
loop, `timedLook`, over arbitrary answers of the stream and an arbitrary
clock. Whether its time-outs are honest depends on where in the period of the
counter the wait starts (`honest_iff`), and `elapsed_iff` has both.
-/

namespace Wiring

/-! ## The clock -/

/-- `system_get_time()` at a true time in microseconds. -/
def systemGetTime (t : ℕ) : UInt32 := UInt32.ofNat t

/-- `millis()` at a true time. -/
def millis (t : ℕ) : UInt32 := systemGetTime t / 1000

/-- `micros()` at a true time. -/
def micros (t : ℕ) : UInt32 := systemGetTime t

/-- Where in the period of the microsecond counter a moment lies. -/
def phase (t : ℕ) : ℕ := t % 2 ^ 32

theorem phase_lt (t : ℕ) : phase t < 2 ^ 32 := Nat.mod_lt t (by decide)

theorem millis_toNat (t : ℕ) : (millis t).toNat = phase t / 1000 := by
  rw [millis, UInt32.toNat_div, systemGetTime, UInt32.toNat_ofNat']
  rfl

/-- Differences of `millis()` are taken modulo `2 ^ 32`. -/
theorem millis_sub_toNat (t u : ℕ) :
    (millis u - millis t).toNat = (2 ^ 32 - phase t / 1000 + phase u / 1000) % 2 ^ 32 := by
  rw [UInt32.toNat_sub, millis_toNat, millis_toNat]

/-- The counter has not wrapped: time passed as it shows. -/
theorem phase_add {t e : ℕ} (h : phase t + e < 2 ^ 32) : phase (t + e) = phase t + e := by
  unfold phase at *
  omega

/-- The counter wrapped once. -/
theorem phase_add_wrap {t e : ℕ} (h : 2 ^ 32 ≤ phase t + e) (he : e < 2 ^ 32) :
    phase (t + e) = phase t + e - 2 ^ 32 := by
  unfold phase at *
  omega

/-- The difference is the elapsed time in milliseconds, up to rounding. -/
def ElapsedRight (t e : ℕ) : Prop :=
  (millis (t + e) - millis t).toNat = e / 1000 ∨
    (millis (t + e) - millis t).toNat = e / 1000 + 1

instance (t e : ℕ) : Decidable (ElapsedRight t e) := inferInstanceAs (Decidable (_ ∨ _))

/-- **The difference is right until the microsecond counter wraps**, and only
until then. -/
theorem millis_sub_iff (t e : ℕ) (he : e < 2 ^ 31) :
    ElapsedRight t e ↔ phase t + e < 2 ^ 32 := by
  unfold ElapsedRight
  rw [millis_sub_toNat]
  have hlt := phase_lt t
  constructor
  · intro hright
    by_contra hwrap
    rw [phase_add_wrap (Nat.le_of_not_lt hwrap) (by omega)] at hright
    omega
  · intro hfits
    rw [phase_add hfits]
    omega

/-! ## `Stream::timedRead` and `timedPeek` -/

/-- **The true times at which a loop looks at the clock**, the first at its
start. -/
structure Clock where
  time : ℕ → ℕ
  mono : Monotone time

/-- One turn of the loop: the answer of the stream, and then the clock. The
state is the number of the turn, and the result has it too. -/
def timedTurn (look : ℕ → Int32) (clock : Clock) (timeout : UInt32) (k : ℕ) :
    Fueled (ℕ ⊕ (Int32 × ℕ)) :=
  if 0 ≤ look k then pure (Sum.inr (look k, k))
  else if millis (clock.time (k + 1)) - millis (clock.time 0) < timeout then
    pure (Sum.inl (k + 1))
  else pure (Sum.inr (-1, k))

/-- The loop of `timedRead` and `timedPeek`, over the answers of the stream. -/
def timedLook (look : ℕ → Int32) (clock : Clock) (timeout : UInt32) : Fueled (Int32 × ℕ) :=
  Fueled.loop (timedTurn look clock timeout) 0

/-- `Stream::timedRead`. -/
def timedRead (read : ℕ → Int32) (clock : Clock) (timeout : UInt32) : Fueled (Int32 × ℕ) :=
  timedLook read clock timeout

/-- `Stream::timedPeek`. -/
def timedPeek (peek : ℕ → Int32) (clock : Clock) (timeout : UInt32) : Fueled (Int32 × ℕ) :=
  timedLook peek clock timeout

/-- **The time-outs of a wait are honest**: one that starts at `t` reports a
time-out only when the time allowed has passed, less a millisecond for the
rounding, and the stream had nothing all the while. -/
def Honest (timed : (ℕ → Int32) → Clock → UInt32 → Fueled (Int32 × ℕ)) (t : ℕ)
    (timeout : UInt32) :
    Prop :=
  ∀ look clock k, clock.time 0 = t → (timed look clock timeout).Yields (-1, k) →
    1000 * (timeout.toNat - 1) ≤ clock.time (k + 1) - t ∧ ∀ j ≤ k, look j < 0

/-- Early in the period, or not too late in it for the time-out. -/
def Early (t : ℕ) (timeout : UInt32) : Prop :=
  phase t < 1000 ∨ phase t + 1000 * (timeout.toNat - 1) ≤ 2 ^ 32

section
variable {look : ℕ → Int32} {clock : Clock} {timeout : UInt32} {k : ℕ}

/-- **What a time-out says**: nothing was there at any look, and the
difference of the two clock values has reached the time allowed. -/
theorem timedLook_timeout (h : (timedLook look clock timeout).Yields (-1, k)) :
    (∀ j ≤ k, look j < 0) ∧ timeout ≤ millis (clock.time (k + 1)) - millis (clock.time 0) := by
  obtain ⟨n, hn⟩ := h
  refine Fueled.loop_sound (fun i => ∀ j < i, look j < 0)
    (fun r => r.1 = -1 → (∀ j ≤ r.2, look j < 0) ∧
      timeout ≤ millis (clock.time (r.2 + 1)) - millis (clock.time 0)) ?_ ?_
    (fun j hj => absurd hj (Nat.not_lt_zero j)) (hn n le_rfl) rfl
  · intro i m i' hbefore hturn j hj
    unfold timedTurn at hturn
    split at hturn
    · cases hturn
    · rename_i hlook
      split at hturn
      · cases hturn
        rcases Nat.lt_succ_iff_lt_or_eq.mp hj with hlt | rfl
        · exact hbefore j hlt
        · exact Int32.not_le.mp hlook
      · cases hturn
  · intro i m r hbefore hturn hr
    unfold timedTurn at hturn
    split at hturn
    · -- a look that succeeds does not return -1
      rename_i hlook
      cases hturn
      rw [show look i = -1 from hr] at hlook
      exact absurd hlook (by decide)
    · rename_i hlook
      split at hturn
      · cases hturn
      · rename_i hover
        cases hturn
        refine ⟨fun j hj => ?_, UInt32.not_lt.mp hover⟩
        rcases Nat.lt_or_eq_of_le hj with hlt | rfl
        · exact hbefore j hlt
        · exact Int32.not_le.mp hlook

end

/-- From an early start, a difference that reaches the time-out is time that
passed. -/
theorem le_of_early {t e : ℕ} {timeout : UInt32} (h : Early t timeout)
    (hdiff : timeout ≤ millis (t + e) - millis t) : 1000 * (timeout.toNat - 1) ≤ e := by
  rw [UInt32.le_iff_toNat_le, millis_sub_toNat] at hdiff
  have hlt := phase_lt (t + e)
  rcases h with hfirst | hfits
  · have hle : phase (t + e) ≤ phase t + e := by
      unfold phase
      omega
    omega
  · by_contra hshort
    rw [phase_add (by omega)] at hdiff
    omega

/-- **From a late start there is a moment too early** at which the difference
has reached the time-out: right behind the wrap, or for the longest time-outs
a while later. -/
theorem exists_of_not_early {t : ℕ} {timeout : UInt32} (h : ¬ Early t timeout) :
    ∃ e, timeout ≤ millis (t + e) - millis t ∧ e < 1000 * (timeout.toNat - 1) := by
  unfold Early at h
  rw [not_or] at h
  have hlt := phase_lt t
  have htimeout := timeout.toNat_lt
  by_cases hlong : timeout.toNat ≤ 2 ^ 32 - phase t / 1000
  · refine ⟨2 ^ 32 - phase t, ?_, by omega⟩
    rw [UInt32.le_iff_toNat_le, millis_sub_toNat, phase_add_wrap (by omega) (by omega)]
    omega
  · refine ⟨2 ^ 32 - phase t + 1000 * (phase t / 1000 - 1), ?_, by omega⟩
    rw [UInt32.le_iff_toNat_le, millis_sub_toNat, phase_add_wrap (by omega) (by omega)]
    omega

/-- A clock that is read once more, after `e` microseconds. -/
def Clock.after (t e : ℕ) : Clock where
  time k := if k = 0 then t else t + e
  mono := by
    intro i j hij
    dsimp only
    split <;> split <;> omega

/-- A wait that looks at the clock once, when the difference has reached the
time-out. -/
theorem timedLook_after {t e : ℕ} {timeout : UInt32} (h : timeout ≤ millis (t + e) - millis t) :
    (timedLook (fun _ => -1) (Clock.after t e) timeout).Yields (-1, 0) := by
  refine Fueled.yields_loop_leave ?_
  have hover : ¬ millis ((Clock.after t e).time (0 + 1)) - millis
      ((Clock.after t e).time 0) < timeout :=
    UInt32.not_lt.mpr h
  rw [timedTurn, if_neg (by decide), if_neg hover]
  exact Fueled.yields_pure _

/-- A time-out reported too early is not honest. -/
theorem not_honest {t e : ℕ} {timeout : UInt32} (hdiff : timeout ≤ millis (t + e) - millis t)
    (hshort : e < 1000 * (timeout.toNat - 1)) : ¬ Honest timedLook t timeout := by
  intro hhonest
  have hpassed := (hhonest _ _ 0 rfl (timedLook_after hdiff)).1
  have htime : (Clock.after t e).time (0 + 1) = t + e := rfl
  omega

/-- **The time-outs are honest from an early start, and only from there.** -/
theorem honest_iff (t : ℕ) (timeout : UInt32) :
    Honest timedLook t timeout ↔ Early t timeout := by
  constructor
  · intro hhonest
    by_contra hlate
    obtain ⟨e, hdiff, hshort⟩ := exists_of_not_early hlate
    exact not_honest hdiff hshort hhonest
  · intro hearly look clock k hstart hyields
    obtain ⟨hlook, hdiff⟩ := timedLook_timeout hyields
    refine ⟨?_, hlook⟩
    obtain ⟨e, he⟩ := Nat.exists_eq_add_of_le (clock.mono (Nat.zero_le (k + 1)))
    rw [he, hstart] at hdiff
    have hle := le_of_early hearly hdiff
    omega

/-- **Elapsed time and the wrap of the microsecond counter.** A difference of
`millis()` is the elapsed time exactly when the counter does not wrap in
between, and the time-outs of `timedRead` and `timedPeek` are honest exactly
when the wait starts early in its period. -/
theorem elapsed_iff (t : ℕ) :
    (∀ e < 2 ^ 31, ElapsedRight t e ↔ phase t + e < 2 ^ 32) ∧
      ∀ timeout, (Honest timedRead t timeout ↔ Early t timeout) ∧
        (Honest timedPeek t timeout ↔ Early t timeout) :=
  ⟨millis_sub_iff t, fun timeout => ⟨honest_iff t timeout, honest_iff t timeout⟩⟩

/-- From the start of the system a second is a second. -/
theorem elapsed_from_start :
    ElapsedRight 0 1000000 ∧ Honest timedRead 0 1000 ∧ Honest timedPeek 0 1000 :=
  ⟨((elapsed_iff 0).1 1000000 (by decide)).mpr (by decide),
    ((elapsed_iff 0).2 1000).1.mpr (Or.inl (by decide)),
    ((elapsed_iff 0).2 1000).2.mpr (Or.inl (by decide))⟩

/-- **A millisecond across the wrap is not one**: the difference is nearly
`2 ^ 32`, and a wait of a second is given up after it. -/
theorem elapsed_across_wrap :
    ¬ ElapsedRight 4294966296 1000 ∧ ¬ Honest timedRead 4294966296 1000 ∧
      ¬ Honest timedPeek 4294966296 1000 :=
  ⟨by decide, not_honest (e := 1000) (by decide) (by decide),
    not_honest (e := 1000) (by decide) (by decide)⟩

end Wiring
