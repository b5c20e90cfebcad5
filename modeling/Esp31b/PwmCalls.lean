import Esp31b.Machine
import Esp31b.PwmSteps
import Mathlib.Logic.Function.Basic

/-!
# `analogWrite`

A pin has a value in the range, and is in use until 0 is written to it. The pins
in use go high when a period begins, and go low at the end of the step that is
as long as their value. So a pin is high for its value
(`Pwm.scheduled_of_run`), if there is a step that ends there: its value is not 0
and not larger than the range.

Neither follows from what the calls check. A value that is not 0 becomes 0 if it
is a multiple of the range and one, and the pin is used nevertheless; and a
value that was in the range may be out of it when the range gets smaller. And
the arrays have 32 entries, of which the range needs one.
-/

namespace Pwm

/-- What can go wrong in a call. -/
inductive Fault where
  | outside
  | divideByZero
  deriving DecidableEq

/-- `prep_pwm_steps`. -/
def prepSteps (s : Pwm) : Except Fault Pwm :=
  if s.mask = 0#32 then .ok { s with stepsLen := 0 }
  else
    match s.nextSteps with
    | none => .error .outside
    | some t =>
      if t.range * t.freq % 2 ^ 32 = 0 then .error .divideByZero
      else .ok { t with multiplier := 80000000 / (t.range * t.freq % 2 ^ 32) }

/-- The calls; the value that is written is an `int`, by its bits. -/
inductive Call where
  | analogWrite (pin : Fin 32) (value : UInt32)
  | analogWriteFreq (freq : UInt32)
  | analogWriteRange (range : UInt32)

/-- `__analogWrite`. -/
def analogWrite (s : Pwm) (pin : Fin 32) (value : UInt32) : Except Fault Pwm :=
  if value = 0 then prepSteps { s with mask := s.mask &&& ~~~(1#32 <<< pin.val) }
  else if (s.range + 1) % 2 ^ 32 = 0 then .error .divideByZero
  else
    prepSteps { s with
      mask := s.mask ||| 1#32 <<< pin.val
      values := Function.update s.values pin (value.toNat % ((s.range + 1) % 2 ^ 32)) }

/-- `__analogWriteFreq`. -/
def analogWriteFreq (s : Pwm) (freq : UInt32) : Except Fault Pwm :=
  prepSteps { s with freq := freq.toNat }

/-- `__analogWriteRange`. -/
def analogWriteRange (s : Pwm) (range : UInt32) : Except Fault Pwm :=
  prepSteps { s with range := range.toNat }

/-- A call. -/
def call (s : Pwm) : Call → Except Fault Pwm
  | .analogWrite pin value => s.analogWrite pin value
  | .analogWriteFreq freq => s.analogWriteFreq freq
  | .analogWriteRange range => s.analogWriteRange range

/-- The variables at first. -/
def start : Pwm where
  mask := 0#32
  values := fun _ => 0
  freq := 1000
  range := 1024
  multiplier := 0
  steps := List.replicate 32 0
  stepsLen := 0
  stepsMask := List.replicate 32 0#32

/-! ## A period -/

/-- **How long a pin is high** in what is left of a period: it is or it is not
now, and after each step but the last some go low. -/
def ticksHigh (pin : Fin 32) : Bool → List ℕ → List (BitVec 32) → ℕ
  | high, step :: steps, mask :: masks =>
    (if high then step else 0) + ticksHigh pin (high && !mask.getLsbD pin) steps masks
  | high, steps, _ => if high then steps.sum else 0

/-- The steps that are published. -/
def published (s : Pwm) : List ℕ := s.steps.take (s.stepsLen + 1)

/-- The pins that go low after them. -/
def publishedMasks (s : Pwm) : List (BitVec 32) := s.stepsMask.take s.stepsLen

/-- **The steps are those of the values**: they make up the range, and each pin
in use is high for its value. -/
structure Scheduled (s : Pwm) : Prop where
  sum_steps : s.published.sum = s.range
  ticks : ∀ pin, s.uses pin = true →
    ticksHigh pin (s.uses pin) s.published s.publishedMasks = s.values pin

variable {s t : Pwm} {pin : Fin 32} {d : List ℕ} {prev : ℕ}

theorem ticksHigh_false (pin : Fin 32) (steps : List ℕ) (masks : List (BitVec 32)) :
    ticksHigh pin false steps masks = 0 := by
  induction steps generalizing masks with
  | nil => cases masks <;> rfl
  | cons step steps ih =>
    cases masks with
    | nil => rfl
    | cons mask masks => exact (Nat.zero_add _).trans (ih masks)

/-- **A pin is high up to its value**, which is where a step ends. -/
theorem ticksHigh_increments (s : Pwm) (huses : s.uses pin = true)
    (hd : (prev :: d).Pairwise (· < ·))
    (hmem : s.values pin ∈ d) :
    ticksHigh pin true (List.increments prev d) (d.dropLast.map s.getMask) =
    s.values pin - prev := by
  induction d generalizing prev with
  | nil => cases hmem
  | cons x d ih =>
    obtain ⟨hprev, htail⟩ := List.pairwise_cons.mp hd
    cases d with
    | nil =>
      rw [List.mem_singleton.mp hmem]
      exact Nat.add_zero _
    | cons y d =>
      show (x - prev) + ticksHigh pin (true && !(s.getMask x).getLsbD pin)
        (List.increments x (y :: d))
        ((y :: d).dropLast.map s.getMask) = s.values pin - prev
      rw [getLsbD_getMask, huses, Bool.true_and, Bool.true_and]
      rcases List.mem_cons.mp hmem with heq | hmem
      · rw [heq, decide_eq_true rfl, Bool.not_true, ticksHigh_false, Nat.add_zero]
      · have hlt := (List.pairwise_cons.mp htail).1 _ hmem
        have hx := hprev x List.mem_cons_self
        rw [decide_eq_false (by omega), Bool.not_false, ih htail hmem]
        omega

/-- **The values are in the range**, and there is an entry for it. -/
structure Fits (s : Pwm) : Prop where
  free : ∃ pin, s.uses pin = false
  range_pos : 0 < s.range
  range_lt : s.range < 2 ^ 32
  positive : ∀ pin, s.uses pin = true → 0 < s.values pin
  inside : ∀ pin, s.uses pin = true → s.values pin ≤ s.range

theorem mem_inUse {x : ℕ} : x ∈ s.inUse ↔ ∃ pin, s.uses pin = true ∧ s.values pin ≠ 0 ∧
    s.values pin = x := by
  unfold inUse
  simp only [List.mem_map, List.mem_filter, List.mem_finRange, true_and,
    decide_eq_true_eq, and_assoc]

theorem mem_ends {x : ℕ} : x ∈ s.ends ↔ x ∈ s.inUse ∨ x = s.range := by
  unfold ends
  rw [List.mem_sortedDistinct, List.mem_append, List.mem_singleton]

/-- **The range is the last of the ends** if no value is larger. -/
theorem ends_eq (hinside : ∀ pin, s.uses pin = true → s.values pin ≤ s.range) :
    ∃ d, s.ends = d ++ [s.range] := by
  obtain ⟨d, x, hd⟩ : ∃ d x, s.ends = d ++ [x] :=
    ⟨_, _, (List.dropLast_append_getLast s.ends_ne_nil).symm⟩
  have hsorted : s.ends.Pairwise (· < ·) := List.pairwise_sortedDistinct _
  have hrange : s.range ∈ s.ends := mem_ends.mpr (Or.inr rfl)
  have hx : x ∈ s.ends := hd ▸ List.mem_append_right _ List.mem_cons_self
  have hle : x ≤ s.range := by
    rcases mem_ends.mp hx with hx | hx
    · obtain ⟨pin, huses, -, rfl⟩ := mem_inUse.mp hx
      exact hinside pin huses
    · exact hx.le
  refine ⟨d, ?_⟩
  rw [hd] at hrange ⊢
  rcases List.mem_append.mp hrange with hmem | hmem
  · have hlt := (List.pairwise_append.mp (hd ▸ hsorted)).2.2 _ hmem x List.mem_cons_self
    omega
  · rw [List.mem_singleton.mp hmem]

/-- The steps are what lies between the ends. -/
theorem published_publish (s : Pwm) : s.publish.published = List.increments 0 s.ends := by
  have hpos := List.length_pos_iff.mpr s.ends_ne_nil
  have hincrements := List.length_increments 0 s.ends
  show (List.increments 0 s.ends ++ s.steps.drop s.ends.length).take (s.ends.length - 1 + 1) = _
  rw [List.take_append_of_le_length (by omega), List.take_of_length_le (by omega)]

theorem publishedMasks_publish (s : Pwm) :
    s.publish.publishedMasks = s.ends.dropLast.map s.getMask := by
  have hmapped : (s.ends.dropLast.map s.getMask).length = s.ends.length - 1 := by
    rw [List.length_map, List.length_dropLast]
  show (s.ends.dropLast.map s.getMask ++ s.stepsMask.drop (s.ends.length - 1)).take
    (s.ends.length - 1) = _
  rw [List.take_append_of_le_length hmapped.ge, List.take_of_length_le hmapped.le]

/-- **The steps make up the range.** -/
theorem sum_publish (hinside : ∀ pin, s.uses pin = true → s.values pin ≤ s.range) :
    s.publish.published.sum = s.range := by
  obtain ⟨d, hd⟩ := ends_eq hinside
  have hsorted : (0 :: s.ends).Pairwise (· ≤ ·) :=
    List.pairwise_cons.mpr ⟨fun x _ => Nat.zero_le x,
      (List.pairwise_sortedDistinct _).imp le_of_lt⟩
  rw [hd] at hsorted
  rw [published_publish, hd]
  exact List.sum_increments hsorted

theorem Fits.room (h : s.Fits) : s.inUse.length < 32 := by
  obtain ⟨pin, hpin⟩ := h.free
  unfold inUse
  rw [List.length_map]
  refine (List.length_filter_lt_length_iff_exists.mpr ⟨pin, List.mem_finRange pin, ?_⟩).trans_eq
    List.length_finRange
  simp [hpin]

/-- **What is published is the schedule** of values that fit. -/
theorem Fits.scheduled (h : s.Fits) : s.publish.Scheduled := by
  refine ⟨sum_publish h.inside, fun pin huses => ?_⟩
  have huses' : s.uses pin = true := huses
  have hsorted : (0 :: s.ends).Pairwise (· < ·) := by
    refine List.pairwise_cons.mpr ⟨fun x hx => ?_, List.pairwise_sortedDistinct _⟩
    rcases mem_ends.mp hx with hx | rfl
    · obtain ⟨pin, -, hpos, rfl⟩ := mem_inUse.mp hx
      omega
    · exact h.range_pos
  rw [published_publish, publishedMasks_publish, huses]
  refine ticksHigh_increments s huses' hsorted
    (mem_ends.mpr (Or.inl (mem_inUse.mpr ⟨pin, huses', ?_, rfl⟩)))
  exact (h.positive pin huses').ne'

/-! ## Runs -/

/-- **What holds between calls.** -/
structure Ready (s : Pwm) : Prop where
  steps : s.steps.length = 32
  masks : s.stepsMask.length = 32
  fits : s.Fits

theorem ready_start : start.Ready where
  steps := rfl
  masks := rfl
  fits := by
    have hunused : ∀ pin, start.uses pin = true → False := fun pin h => by
      unfold uses start at h
      simp at h
    exact ⟨⟨0, rfl⟩, by decide, by decide, fun pin h => (hunused pin h).elim,
      fun pin h => (hunused pin h).elim⟩

theorem Ready.ends_lt (h : s.Ready) : ∀ z ∈ s.ends, z < 2 ^ 32 := by
  intro z hz
  rcases mem_ends.mp hz with hz | rfl
  · obtain ⟨pin, huses, -, rfl⟩ := mem_inUse.mp hz
    exact (h.fits.inside pin huses).trans_lt h.fits.range_lt
  · exact h.fits.range_lt

/-- **Preparing the steps** of values that fit. -/
theorem Ready.prepSteps (h : s.Ready) :
    s.prepSteps ≠ .error .outside ∧ ∀ t, s.prepSteps = .ok t → t.Ready ∧
    (t.mask ≠ 0#32 → t.Scheduled) := by
  have hfits := h.fits
  unfold Pwm.prepSteps
  split
  · rename_i hmask
    refine ⟨nofun, fun t ht => ?_⟩
    cases ht
    exact ⟨⟨h.steps, h.masks, ⟨hfits.free, hfits.range_pos, hfits.range_lt,
      hfits.positive, hfits.inside⟩⟩,
      fun hne => absurd hmask hne⟩
  · rw [nextSteps_eq hfits.room h.ends_lt h.steps h.masks]
    dsimp only
    split
    · exact ⟨nofun, nofun⟩
    · refine ⟨nofun, fun t ht => ?_⟩
      cases ht
      have hscheduled := hfits.scheduled
      exact ⟨⟨length_steps_publish hfits.room h.steps,
        length_stepsMask_publish hfits.room h.masks,
        ⟨hfits.free, hfits.range_pos, hfits.range_lt, hfits.positive, hfits.inside⟩⟩,
        fun _ => ⟨hscheduled.sum_steps, hscheduled.ticks⟩⟩

/-- **What is needed of a call**: the value that a pin gets is not 0 and there
is a pin that is not in use; the values of the pins in use are in the new
range. -/
def Admitted (s : Pwm) : Call → Prop
  | .analogWrite pin value =>
    value = 0 ∨ value.toNat % ((s.range + 1) % 2 ^ 32) ≠ 0 ∧ ∃ other, other ≠ pin ∧
      s.uses other = false
  | .analogWriteFreq _ => True
  | .analogWriteRange range =>
    0 < range.toNat ∧ ∀ pin, s.uses pin = true → s.values pin ≤ range.toNat

instance (s : Pwm) : (c : Call) → Decidable (s.Admitted c)
  | .analogWrite _ _ => inferInstanceAs (Decidable (_ ∨ _))
  | .analogWriteFreq _ => inferInstanceAs (Decidable True)
  | .analogWriteRange _ => inferInstanceAs (Decidable (_ ∧ _))

/-- 0 is written to a pin. -/
theorem Ready.unuse (h : s.Ready) (pin : Fin 32) :
    Ready { s with mask := s.mask &&& ~~~(1#32 <<< pin.val) } := by
  have hfits := h.fits
  have hsub : ∀ i : Fin 32, (s.mask &&& ~~~(1#32 <<< pin.val)).getLsbD i = true →
      s.uses i = true :=
    fun i hi => by
    rw [getLsbD_clear] at hi
    exact (Bool.and_eq_true_iff.mp hi).1
  refine ⟨h.steps, h.masks, ⟨⟨pin, ?_⟩, hfits.range_pos, hfits.range_lt, fun i hi =>
    hfits.positive i (hsub i hi),
    fun i hi => hfits.inside i (hsub i hi)⟩⟩
  show (s.mask &&& ~~~(1#32 <<< pin.val)).getLsbD pin = false
  rw [getLsbD_clear]
  simp

/-- **A pin gets a value** in the range, and another one stays free. -/
theorem Ready.use (h : s.Ready) {pin other : Fin 32} {x : ℕ} (hpos : 0 < x) (hx : x ≤ s.range)
    (hne : other ≠ pin)
    (hfree : s.uses other = false) :
    Ready { s with
      mask := s.mask ||| 1#32 <<< pin.val, values := Function.update s.values pin x } := by
  have hfits := h.fits
  have hvalues : ∀ i : Fin 32, (s.mask ||| 1#32 <<< pin.val).getLsbD i = true →
      0 < Function.update s.values pin x i ∧ Function.update s.values pin x i ≤ s.range :=
        fun i hi => by
    rw [getLsbD_put] at hi
    by_cases heq : i = pin
    · rw [heq, Function.update_self]
      exact ⟨hpos, hx⟩
    · rw [Function.update_of_ne heq]
      have huses : s.uses i = true := by
        rwa [decide_eq_false heq, Bool.or_false] at hi
      exact ⟨hfits.positive i huses, hfits.inside i huses⟩
  refine ⟨h.steps, h.masks, ⟨⟨other, ?_⟩, hfits.range_pos, hfits.range_lt, fun i hi =>
    (hvalues i hi).1,
    fun i hi => (hvalues i hi).2⟩⟩
  show (s.mask ||| 1#32 <<< pin.val).getLsbD other = false
  rw [getLsbD_put, decide_eq_false hne, Bool.or_false]
  exact hfree

/-- **A call** keeps what holds, and publishes the schedule. -/
theorem Ready.call (h : s.Ready) {c : Call} (hc : s.Admitted c) :
    s.call c ≠ .error .outside ∧ ∀ t, s.call c = .ok t → t.Ready ∧
    (t.mask ≠ 0#32 → t.Scheduled) := by
  have hfits := h.fits
  cases c with
  | analogWrite pin value =>
    show s.analogWrite pin value ≠ _ ∧ ∀ t, s.analogWrite pin value = .ok t → _
    unfold analogWrite
    split
    · exact (h.unuse pin).prepSteps
    · rename_i hvalue
      obtain ⟨hmod, other, hne, hfree⟩ := hc.resolve_left hvalue
      split
      · exact ⟨nofun, nofun⟩
      · rename_i hrange
        have hless := Nat.mod_lt value.toNat (Nat.pos_of_ne_zero hrange)
        exact (h.use (Nat.pos_of_ne_zero hmod) (by omega) hne hfree).prepSteps
  | analogWriteFreq freq =>
    exact Ready.prepSteps (s := { s with freq := freq.toNat })
      ⟨h.steps, h.masks, ⟨hfits.free, hfits.range_pos, hfits.range_lt,
        hfits.positive, hfits.inside⟩⟩
  | analogWriteRange range =>
    exact Ready.prepSteps (s := { s with range := range.toNat })
      ⟨h.steps, h.masks, ⟨hfits.free, hc.1, range.toNat_lt, hfits.positive, hc.2⟩⟩

/-- The PWM as it is called. -/
def machine : Machine Pwm Call := ⟨fun s c => (s.call c).toOption⟩

theorem toOption_eq_some {x : Except Fault Pwm} : x.toOption = some t ↔ x = .ok t := by
  cases x with
  | error e => exact ⟨nofun, nofun⟩
  | ok u => exact ⟨fun h => congrArg Except.ok (Option.some.inj h), fun h => by cases h; rfl⟩

theorem ready_of_run {calls : List Call} (h : machine.Along Admitted start calls)
    (hrun : machine.run start calls = some s) :
    s.Ready :=
  Machine.invariant_of_along
    (fun _ _ _ hs hc ht => ((hs.call hc).2 _ (toOption_eq_some.mp ht)).1)
    ready_start h hrun

/-- **After every call in every run** the schedule is that of the values, and no
access was outside. -/
theorem scheduled_of_run {calls : List Call} {c : Call}
    (h : machine.Along Admitted start (calls ++ [c]))
    (hrun : machine.run start calls = some s) :
    s.call c ≠ .error .outside ∧ ∀ t, s.call c = .ok t → t.mask ≠ 0#32 → t.Scheduled := by
  obtain ⟨hcalls, hc⟩ := Machine.along_append.mp h
  obtain ⟨hfault, hok⟩ := (ready_of_run hcalls hrun).call (hc s hrun).1
  exact ⟨hfault, fun t ht => (hok t ht).2⟩

/-- Two pins, one of them with the whole range at last. -/
theorem scheduled_of_run_two :
    ∃ s, machine.run start [.analogWrite 2 512, .analogWriteFreq 500, .analogWrite 5 100] =
      some s ∧
      s.call (.analogWrite 2 1024) ≠ .error .outside ∧
      ∀ t, s.call (.analogWrite 2 1024) = .ok t → t.mask ≠ 0#32 → t.Scheduled := by
  obtain ⟨s, hs⟩ := Option.isSome_iff_exists.mp
    (by decide : (machine.run start
      [.analogWrite 2 512, .analogWriteFreq 500, .analogWrite 5 100]).isSome = true)
  exact ⟨s, hs, scheduled_of_run (by decide) hs⟩

/-- **A pin with the value 0** is high for the whole range: one more than the
range is written to it. -/
theorem not_scheduled : ¬ ∀ (calls : List Call) (c : Call) (s : Pwm),
    (∀ range, Call.analogWriteRange range ∈ calls ++ [c] → 0 < range.toNat) →
      machine.run start calls = some s →
      s.call c ≠ .error .outside ∧ ∀ t, s.call c = .ok t → t.mask ≠ 0#32 → t.Scheduled := by
  intro h
  obtain ⟨-, hok⟩ := h [] (.analogWrite 0 1025) start
    (fun range hrange => by cases List.mem_singleton.mp hrange) rfl
  have hhigh : (start.call (.analogWrite 0 1025)).toOption.map (fun t =>
      decide (t.mask ≠ 0#32 ∧ t.uses 0 = true ∧
        ticksHigh 0 (t.uses 0) t.published t.publishedMasks ≠ t.values 0)) =
        some true := by
    decide
  obtain ⟨t, ht, hdecide⟩ := Option.map_eq_some_iff.mp hhigh
  obtain ⟨hmask, huses, hticks⟩ := of_decide_eq_true hdecide
  exact hticks ((hok t (toOption_eq_some.mp ht) hmask).ticks 0 huses)

end Pwm
