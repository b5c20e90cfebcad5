import Esp31b.PwmCalls

/-!
# A PWM period

The interrupt plays the schedule that is published when a period begins: it
loads the timer with the first step and makes a copy, and from then on it loads
a step and clears the pins of the one before. A call may publish another
schedule in between. The pins are those of the copy; but the steps are read
from what is published now, and are multiplied with the multiplier of now.

So a period is that of its own schedule (`Pwm.onePeriod_of_run`) if a schedule is
published in the middle of one only for the same multiplier, and for values that
end the steps ahead where they end. The timer runs only while there are pins in
use, so there is always a schedule when a period begins.
-/

namespace Pwm

/-! ## The interrupt -/

/-- What the timer is loaded with for a step. -/
def ticks (s : Pwm) (step : ℕ) : ℕ := step * s.multiplier % 2 ^ 32

/-- `pwm_steps[i] * pwm_multiplier`. -/
def load (s : Pwm) (i : ℕ) : Option ℕ := (s.steps[i]?).map s.ticks

/-- The static variables of `pwm_timer_isr`. -/
structure Isr where
  currentStep : ℕ
  stepcount : ℕ
  steps : List ℕ
  masks : List (BitVec 32)

/-- What is written to the registers: `T1L`, and `GPOS0` or `GPOC0`. -/
inductive Written where
  | nothing
  | begins (load : ℕ) (high : BitVec 32)
  | goesOn (load : ℕ) (low : BitVec 32)

/-- `pwm_timer_isr`. -/
def timerIsr (s : Pwm) (v : Isr) : Option (Isr × Written) :=
  if v.currentStep < v.stepcount then do
    let load ← s.load (v.currentStep + 1)
    let low ← v.masks[v.currentStep]?
    return ({ v with currentStep := v.currentStep + 1 }, .goesOn load low)
  else if s.mask = 0#32 then some ({ v with currentStep := 0, stepcount := 0 }, .nothing)
  else do
    let load ← s.load 0
    let steps ← Block.read s.steps 0 (s.stepsLen + 1)
    let steps ← Block.write v.steps 0 steps
    let masks ← Block.read s.stepsMask 0 s.stepsLen
    let masks ← Block.write v.masks 0 masks
    return (⟨0, s.stepsLen, steps, masks⟩, .begins load s.mask)

/-- A call up to `prep_pwm_steps`: the variables, whether the timer is to be
started behind it, and whether it is to be stopped if no pin is in use. -/
def enter (s : Pwm) : Call → Option (Pwm × Bool × Bool)
  | .analogWrite pin value =>
    if value = 0 then some ({ s with mask := s.mask &&& ~~~(1#32 <<< pin.val) }, false, true)
    else if (s.range + 1) % 2 ^ 32 = 0 then none
    else
      some ({ s with
        mask := s.mask ||| 1#32 <<< pin.val
        values := Function.update s.values pin (value.toNat % ((s.range + 1) % 2 ^ 32)) },
        decide (s.mask = 0#32), false)
  | .analogWriteFreq freq => some ({ s with freq := freq.toNat }, false, false)
  | .analogWriteRange range => some ({ s with range := range.toNat }, false, false)

/-- **It is the same call.** -/
theorem call_eq (s : Pwm) (c : Call) :
    (s.call c).toOption = (s.enter c).bind fun entered => entered.1.prepSteps.toOption := by
  cases c with
  | analogWrite pin value =>
    show (s.analogWrite pin value).toOption = _
    unfold analogWrite enter
    dsimp only
    split
    · rfl
    · split <;> rfl
  | analogWriteFreq freq => rfl
  | analogWriteRange range => rfl

/-! ## Periods and publications -/

/-- **A period**: the variables when it began and the range its steps were made
for, and what has been played of it. -/
structure Period where
  schedule : Pwm
  range : Option ℕ
  loads : List ℕ
  clears : List (BitVec 32)

/-- What a call has still to do. -/
inductive Todo where
  | nothing
  | prepare (start stop : Bool)
  | switch (start stop : Bool)

/-- The variables, the timer, and the call that is under way. The range the
steps were made for and the period are kept for what is said of them. -/
structure Timer where
  pwm : Pwm
  isr : Isr
  running : Bool
  todo : Todo
  range : Option ℕ
  period : Option Period

/-- The interrupt, and the parts of a call. -/
inductive Event where
  | isr
  | enter (c : Call)
  | prepare
  | switch

namespace Timer

/-- The period with what has been written. -/
def played (s : Timer) : Written → Option Period
  | .nothing => none
  | .begins load _ => some ⟨s.pwm, s.range, [load], []⟩
  | .goesOn load low =>
    s.period.map fun p => { p with loads := p.loads ++ [load], clears := p.clears ++ [low] }

/-- The interrupt, while the timer runs. -/
def interrupt (s : Timer) : Option Timer :=
  if s.running then do
    let (isr, written) ← s.pwm.timerIsr s.isr
    return { s with isr := isr, period := s.played written }
  else none

/-- A call begins. -/
def enter (s : Timer) (c : Call) : Option Timer :=
  match s.todo with
  | .nothing => do
    let (pwm, start, stop) ← s.pwm.enter c
    return { s with pwm := pwm, todo := .prepare start stop }
  | _ => none

/-- `prep_pwm_steps`. -/
def prepare (s : Timer) : Option Timer :=
  match s.todo with
  | .prepare start stop => do
    let pwm ← s.pwm.prepSteps.toOption
    return { s with
      pwm := pwm
      todo := .switch start stop
      range := if s.pwm.mask = 0#32 then none else some s.pwm.range }
  | _ => none

/-- `timer1_disable` and `pwm_start_timer`. -/
def switch (s : Timer) : Option Timer :=
  match s.todo with
  | .switch start stop =>
    some { s with
      running := if stop && decide (s.pwm.mask = 0#32) then false else if start
        then true else s.running
      todo := .nothing }
  | _ => none

/-- An event. -/
def step (s : Timer) : Event → Option Timer
  | .isr => s.interrupt
  | .enter c => s.enter c
  | .prepare => s.prepare
  | .switch => s.switch

/-- Everything at first. -/
def start : Timer where
  pwm := Pwm.start
  isr := ⟨0, 0, List.replicate 32 0, List.replicate 32 0#32⟩
  running := false
  todo := .nothing
  range := none
  period := none

/-- The interrupt and the calls, in any order. -/
def machine : Machine Timer Event := ⟨step⟩

end Timer

/-- What `prep_pwm_steps` leaves, if a pin is in use. -/
def next (s : Pwm) : Pwm :=
  { s.publish with multiplier := 80000000 / (s.range * s.freq % 2 ^ 32) }

/-- **The steps ahead end where they end**: what the steps in force add up to is
one of the values in use, or the range, in their order; and range and frequency
make the multiplier in force. -/
def KeepsAhead (s : Pwm) (v : Isr) : Prop :=
  80000000 / (s.range * s.freq % 2 ^ 32) = s.multiplier ∧
    ∀ i < v.stepcount + 1, v.currentStep ≤ i → s.ends[i]? = some (s.steps.take (i + 1)).sum

instance (s : Pwm) (v : Isr) : Decidable (s.KeepsAhead v) := inferInstanceAs (Decidable (_ ∧ _))

/-- **A publication suits the period**: the values are in the range, and if the
period is under way the steps ahead are kept. -/
def Suits (s : Pwm) (v : Isr) : Prop :=
  s.mask ≠ 0#32 → (∀ pin, s.uses pin = true → s.values pin ≤ s.range) ∧
    (v.currentStep < v.stepcount → s.KeepsAhead v)

instance (s : Pwm) (v : Isr) : Decidable (s.Suits v) := inferInstanceAs (Decidable (_ → _ ∧ _))

/-- **What is needed of an event**: only publications matter. -/
def Timer.Admitted (s : Timer) : Event → Prop
  | .prepare => s.pwm.Suits s.isr
  | _ => True

instance (s : Timer) : (e : Event) → Decidable (s.Admitted e)
  | .prepare => inferInstanceAs (Decidable (s.pwm.Suits s.isr))
  | .isr | .enter _ | .switch => inferInstanceAs (Decidable True)

/-- **What has been played of a period** is taken from its schedule, and all of
it takes the range times the multiplier. -/
structure Period.FromSchedule (p : Period) (k : ℕ) : Prop where
  loads : p.loads = (p.schedule.published.take (k + 1)).map p.schedule.ticks
  clears : p.clears = p.schedule.publishedMasks.take k
  complete : k = p.schedule.stepsLen → ∃ range, p.range = some range ∧
    p.loads.sum % 2 ^ 32 = range * p.schedule.multiplier % 2 ^ 32 ∧
    (range * p.schedule.multiplier < 2 ^ 32 → p.loads.sum = range * p.schedule.multiplier)

/-! ## What is published -/

variable {s t : Pwm} {v : Isr} {p : Period} {k x : ℕ} {l : List ℕ}

/-- Arrays of 32 entries, and numbers of 32 bits. -/
structure Sized (s : Pwm) : Prop where
  steps : s.steps.length = 32
  masks : s.stepsMask.length = 32
  stepsLen : s.stepsLen < 32
  values : ∀ pin, s.values pin < 2 ^ 32
  range : s.range < 2 ^ 32

theorem nextSteps_eq_none (h : 32 ≤ s.inUse.length) : s.nextSteps = none := by
  have hpush : push s.inUse s.range = none := if_neg (by omega)
  unfold nextSteps
  rw [collect_eq, Option.bind_eq_bind, Option.bind_some, hpush]
  rfl

/-- **What `prep_pwm_steps` does**, if it comes to an end. -/
theorem Sized.prepSteps (h : s.Sized) (ht : s.prepSteps = .ok t) :
    s.mask = 0#32 ∧ t = { s with stepsLen := 0 } ∨ s.mask ≠ 0#32 ∧ t = s.next ∧
    s.inUse.length < 32 := by
  unfold Pwm.prepSteps at ht
  split at ht
  · rename_i hmask
    cases ht
    exact Or.inl ⟨hmask, rfl⟩
  · rename_i hmask
    have hroom : s.inUse.length < 32 := by
      by_contra hfull
      rw [nextSteps_eq_none (by omega)] at ht
      cases ht
    have hbound : ∀ z ∈ s.ends, z < 2 ^ 32 := fun z hz => by
      rcases mem_ends.mp hz with hz | rfl
      · obtain ⟨pin, -, -, rfl⟩ := mem_inUse.mp hz
        exact h.values pin
      · exact h.range
    rw [nextSteps_eq hroom hbound h.steps h.masks] at ht
    dsimp only at ht
    split at ht
    · cases ht
    · cases ht
      exact Or.inr ⟨hmask, rfl, hroom⟩

/-- **What is ahead is loaded as it would be.** -/
theorem KeepsAhead.load_next (h : s.KeepsAhead v) (hsized : s.Sized) (hcount : v.stepcount < 32)
    {i : ℕ} (hi : i < v.stepcount + 1) (hlt : v.currentStep < i) :
    s.next.load i = s.load i := by
  obtain ⟨hmultiplier, hends⟩ := h
  obtain ⟨i, rfl⟩ : ∃ j, i = j + 1 := ⟨i - 1, by omega⟩
  have hfirst := hends i (by omega) (by omega)
  have hsecond := hends (i + 1) hi (by omega)
  have hlen := (List.getElem?_eq_some_iff.mp hsecond).1
  have hshort : i + 1 < s.steps.length := by
    rw [hsized.steps]
    omega
  have hsum : (s.steps.take (i + 1 + 1)).sum = (s.steps.take (i + 1)).sum + s.steps[i + 1] := by
    rw [List.take_add_one, List.getElem?_eq_getElem hshort, List.sum_append, Option.toList_some,
      List.sum_singleton]
  have hnext : s.next.steps[i + 1]? = s.steps[i + 1]? := by
    show (List.increments 0 s.ends ++ s.steps.drop s.ends.length)[i + 1]? = _
    rw [List.getElem?_append_left (by rwa [List.length_increments]),
      List.getElem?_increments 0 hfirst hsecond, hsum, Nat.add_sub_cancel_left,
      List.getElem?_eq_getElem hshort]
  have hticks : s.next.ticks = s.ticks := by
    funext step
    show step * (80000000 / (s.range * s.freq % 2 ^ 32)) % 2 ^ 32 = _
    rw [hmultiplier]
    rfl
  unfold load
  rw [hnext, hticks]

theorem Sized.next (h : s.Sized) (hroom : s.inUse.length < 32) : s.next.Sized := by
  have hle := s.length_ends_le
  refine ⟨length_steps_publish hroom h.steps, length_stepsMask_publish hroom h.masks, ?_,
    h.values, h.range⟩
  show s.ends.length - 1 < 32
  omega

/-- There is something to be loaded for each step. -/
theorem Sized.exists_load (h : s.Sized) {i : ℕ} (hi : i < 32) : ∃ x, s.load i = some x := by
  unfold load
  rw [List.getElem?_eq_getElem (h.steps.symm ▸ hi)]
  exact ⟨_, rfl⟩

/-- **One more step.** -/
theorem map_take_published (hk : k ≤ s.stepsLen) (h : s.load k = some x) :
    (s.published.take (k + 1)).map s.ticks = (s.published.take k).map s.ticks ++ [x] := by
  obtain ⟨y, hy, rfl⟩ := Option.map_eq_some_iff.mp h
  have hget : s.published[k]? = some y :=
    (List.getElem?_take_of_lt (Nat.lt_succ_of_le hk)).trans hy
  rw [List.take_add_one, hget, List.map_append]
  rfl

/-! ## The sum of the loads -/

theorem sum_map_ticks_mod (s : Pwm) (l : List ℕ) :
    (l.map s.ticks).sum % 2 ^ 32 = l.sum * s.multiplier % 2 ^ 32 := by
  induction l with
  | nil => exact congrArg (· % 2 ^ 32) (Nat.zero_mul _).symm
  | cons x l ih =>
    rw [List.map_cons, List.sum_cons, List.sum_cons, Nat.add_mul, Nat.add_mod,
      ih, ← Nat.add_mod]
    unfold ticks
    rw [Nat.mod_add_mod]

/-- **No load is cut off** if the range is not too long. -/
theorem sum_map_ticks (h : l.sum * s.multiplier < 2 ^ 32) :
    (l.map s.ticks).sum = l.sum * s.multiplier := by
  induction l with
  | nil => exact (Nat.zero_mul _).symm
  | cons x l ih =>
    rw [List.sum_cons, Nat.add_mul] at h
    rw [List.map_cons, List.sum_cons, List.sum_cons, Nat.add_mul, ih (by omega)]
    unfold ticks
    rw [Nat.mod_eq_of_lt (by omega)]

/-! ## The invariant -/

/-- **A period under way**: what has been played comes from its schedule, the
copy of the masks is its copy, and so are the steps that are ahead. -/
structure Period.Played (p : Period) (s : Pwm) (v : Isr) : Prop where
  sized : p.schedule.Sized
  range : ∃ range, p.range = some range ∧ p.schedule.published.sum = range
  stepcount : v.stepcount = p.schedule.stepsLen
  currentStep : v.currentStep ≤ v.stepcount
  masks : v.masks.take v.stepcount = p.schedule.publishedMasks
  loads : p.loads = (p.schedule.published.take (v.currentStep + 1)).map p.schedule.ticks
  clears : p.clears = p.schedule.publishedMasks.take v.currentStep
  ahead : ∀ i < v.stepcount + 1, v.currentStep < i → s.load i = p.schedule.load i

namespace Timer

variable {s t : Timer}

/-- The steps that are published make up a range. -/
def Live (s : Timer) : Prop := ∃ range, s.range = some range ∧ s.pwm.published.sum = range

/-- **The timer runs while pins are in use**, and a call that changes this has
still to start it or to stop it. -/
def TodoHolds (s : Timer) : Prop :=
  match s.todo with
  | .nothing =>
    (s.running = true → s.Live) ∧ (s.pwm.mask ≠ 0#32 → s.running = true) ∧
      (s.pwm.mask = 0#32 → s.running = false)
  | .prepare start stop =>
    (s.running = true → s.Live) ∧ (s.pwm.mask ≠ 0#32 → s.running = true ∨ start = true) ∧
      (s.pwm.mask = 0#32 → start = false ∧ (s.running = true → stop = true))
  | .switch start stop =>
    (s.pwm.mask ≠ 0#32 → s.Live) ∧ (s.pwm.mask ≠ 0#32 → s.running = true ∨ start = true) ∧
      (s.pwm.mask = 0#32 → start = false ∧ (s.running = true → stop = true))

/-- What holds at all times. -/
structure Good (s : Timer) : Prop where
  sized : s.pwm.Sized
  steps : s.isr.steps.length = 32
  masks : s.isr.masks.length = 32
  todo : s.TodoHolds
  idle : s.period = none → s.isr.currentStep = 0 ∧ s.isr.stepcount = 0
  played : ∀ p, s.period = some p → p.Played s.pwm s.isr

theorem good_start : start.Good where
  sized := ⟨rfl, rfl, by decide, fun _ => Nat.two_pow_pos 32, by decide⟩
  steps := rfl
  masks := rfl
  todo := ⟨nofun, fun h => absurd rfl h, fun _ => rfl⟩
  idle := fun _ => ⟨rfl, rfl⟩
  played := nofun

/-- **There is a schedule** when a period begins. -/
theorem Good.live (h : s.Good) (hrunning : s.running = true) (hmask : s.pwm.mask ≠ 0#32) :
    s.Live := by
  have htodo := h.todo
  unfold TodoHolds at htodo
  split at htodo
  · exact htodo.1 hrunning
  · exact htodo.1 hrunning
  · exact htodo.1 hmask

/-- **The interrupt.** -/
theorem Good.interrupt (h : s.Good) (ht : s.interrupt = some t) : t.Good := by
  unfold Timer.interrupt at ht
  obtain ⟨hrunning, ht⟩ := Option.ite_none_right_eq_some.mp ht
  obtain ⟨⟨v, written⟩, hisr, ht⟩ := Option.bind_eq_some_iff.mp ht
  cases ht
  unfold timerIsr at hisr
  split at hisr
  · -- the next step of the period
    rename_i hlt
    obtain ⟨x, hx, hisr⟩ := Option.bind_eq_some_iff.mp hisr
    obtain ⟨low, hlow, hisr⟩ := Option.bind_eq_some_iff.mp hisr
    cases hisr
    refine ⟨h.sized, h.steps, h.masks, h.todo, fun hnone => ?_, fun p hp => ?_⟩
    · have hidle := h.idle (Option.map_eq_none_iff.mp hnone)
      omega
    · obtain ⟨q, hq, rfl⟩ := Option.map_eq_some_iff.mp hp
      have hplayed := h.played q hq
      have hstepcount := hplayed.stepcount
      have hmask : q.schedule.publishedMasks[s.isr.currentStep]? = some low := by
        rw [← hplayed.masks, List.getElem?_take_of_lt hlt, hlow]
      refine ⟨hplayed.sized, hplayed.range, hstepcount, hlt, hplayed.masks, ?_,
        ?_, fun i hi hlt' =>
        hplayed.ahead i hi ?_⟩
      · rw [hplayed.ahead _ (by omega) (Nat.lt_succ_self _)] at hx
        show q.loads ++ [x] = _
        rw [map_take_published (by omega) hx, hplayed.loads]
      · show q.clears ++ [low] = q.schedule.publishedMasks.take (s.isr.currentStep + 1)
        rw [List.take_add_one, hmask, hplayed.clears]
        rfl
      · exact Nat.lt_of_succ_lt hlt'
  · split at hisr
    · cases hisr
      exact ⟨h.sized, h.steps, h.masks, h.todo, fun _ => ⟨rfl, rfl⟩, nofun⟩
    · -- a period begins
      rename_i hmask
      obtain ⟨x, hx, hisr⟩ := Option.bind_eq_some_iff.mp hisr
      obtain ⟨d, hd, hisr⟩ := Option.bind_eq_some_iff.mp hisr
      obtain ⟨steps, hsteps, hisr⟩ := Option.bind_eq_some_iff.mp hisr
      obtain ⟨m, hm, hisr⟩ := Option.bind_eq_some_iff.mp hisr
      obtain ⟨masks, hmasks, hisr⟩ := Option.bind_eq_some_iff.mp hisr
      cases hisr
      have hlen := h.sized.stepsLen
      have hstepsMask := h.sized.masks
      rw [Block.read_eq (by omega)] at hm
      obtain rfl := Option.some.inj hm
      refine ⟨h.sized, (Block.length_of_write hsteps).trans h.steps,
        (Block.length_of_write hmasks).trans h.masks, h.todo,
        nofun, fun p hp => ?_⟩
      obtain rfl := Option.some.inj hp
      refine ⟨h.sized, h.live hrunning hmask, rfl, Nat.zero_le _, ?_, ?_, rfl, fun i _ _ => rfl⟩
      · show masks.take s.pwm.stepsLen = s.pwm.stepsMask.take s.pwm.stepsLen
        refine List.ext_getElem? fun i => ?_
        rw [List.getElem?_take, List.getElem?_take]
        split
        · rename_i hi
          have hlength : ((s.pwm.stepsMask.drop 0).take s.pwm.stepsLen).length =
              s.pwm.stepsLen := by
            rw [List.drop_zero, List.length_take]
            omega
          rw [Block.getElem?_write hmasks, if_pos (by omega), Nat.sub_zero, List.drop_zero,
            List.getElem?_take_of_lt hi]
        · rfl
      · show [x] = (s.pwm.published.take (0 + 1)).map s.pwm.ticks
        rw [map_take_published (Nat.zero_le _) hx]
        rfl

/-- **What a call sets** before it prepares the steps is not published yet. -/
theorem Good.set (h : s.Good) {mask : BitVec 32} {values : Fin 32 → ℕ} {freq range : ℕ}
    {start stop : Bool}
    (hvalues : ∀ pin, values pin < 2 ^ 32) (hrange : range < 2 ^ 32)
    (hlive : s.running = true → s.Live)
    (hruns : mask ≠ 0#32 → s.running = true ∨ start = true)
    (hstops : mask = 0#32 → start = false ∧ (s.running = true → stop = true)) :
    Good { s with
      pwm := { s.pwm with mask := mask, values := values, freq := freq, range := range }
      todo := .prepare start stop } where
  sized := ⟨h.sized.steps, h.sized.masks, h.sized.stepsLen, hvalues, hrange⟩
  steps := h.steps
  masks := h.masks
  todo := ⟨hlive, hruns, hstops⟩
  idle := h.idle
  played := fun p hp => { h.played p hp with }

/-- **A call begins.** -/
theorem Good.enter (h : s.Good) (c : Call) (ht : s.enter c = some t) : t.Good := by
  unfold Timer.enter at ht
  have htodo := h.todo
  have hvalues := h.sized.values
  have hrange := h.sized.range
  unfold TodoHolds at htodo
  split at ht
  · rename_i hnothing
    rw [hnothing] at htodo
    obtain ⟨hlive, hruns, hstops⟩ := htodo
    have hstops' : s.pwm.mask = 0#32 → false = false ∧ (s.running = true → false = true) :=
      fun hzero =>
      ⟨rfl, fun hrunning => absurd ((hstops hzero).symm.trans hrunning) Bool.false_ne_true⟩
    obtain ⟨⟨pwm, start, stop⟩, henter, ht⟩ := Option.bind_eq_some_iff.mp ht
    cases ht
    cases c with
    | analogWrite pin value =>
      unfold Pwm.enter at henter
      dsimp only at henter
      split at henter
      · cases henter
        refine h.set hvalues hrange hlive (fun hne => Or.inl (hruns fun hzero => hne ?_))
          fun _ =>
          ⟨rfl, fun _ => rfl⟩
        rw [hzero, BitVec.zero_and]
      · split at henter
        · cases henter
        · rename_i hmodulus
          cases henter
          have hput : s.pwm.mask ||| 1#32 <<< pin.val ≠ 0#32 := fun hzero => by
            have hbit := congrArg (fun mask : BitVec 32 => mask.getLsbD pin) hzero
            rw [getLsbD_put] at hbit
            simp at hbit
          have hless : value.toNat % ((s.pwm.range + 1) % 2 ^ 32) < 2 ^ 32 :=
            (Nat.mod_lt _ (Nat.pos_of_ne_zero hmodulus)).trans
              (Nat.mod_lt _ (Nat.two_pow_pos 32))
          refine h.set ?_ hrange hlive (fun _ => ?_) fun hzero => absurd hzero hput
          · exact (Function.forall_update_iff s.pwm.values fun _ x => x < 2 ^ 32).mpr
              ⟨hless, fun i _ => hvalues i⟩
          · by_cases hmask : s.pwm.mask = 0#32
            · exact Or.inr (decide_eq_true hmask)
            · exact Or.inl (hruns hmask)
    | analogWriteFreq freq =>
      cases henter
      exact h.set hvalues hrange hlive (fun hne => Or.inl (hruns hne)) hstops'
    | analogWriteRange range =>
      cases henter
      exact h.set hvalues range.toNat_lt hlive (fun hne => Or.inl (hruns hne)) hstops'
  · cases ht

/-- **A publication** that suits the period. -/
theorem Good.prepare (h : s.Good) (hsuits : s.pwm.Suits s.isr) (ht : s.prepare = some t) :
    t.Good := by
  unfold Timer.prepare at ht
  have htodo := h.todo
  unfold TodoHolds at htodo
  split at ht
  · rename_i start stop hprepare
    rw [hprepare] at htodo
    obtain ⟨-, hruns, hstops⟩ := htodo
    obtain ⟨pwm, hpwm, ht⟩ := Option.bind_eq_some_iff.mp ht
    cases ht
    rcases h.sized.prepSteps (toOption_eq_some.mp hpwm) with ⟨hmask, rfl⟩ | ⟨hmask, rfl, hroom⟩
    · refine ⟨⟨h.sized.steps, h.sized.masks, Nat.zero_lt_succ 31,
        h.sized.values, h.sized.range⟩, h.steps, h.masks,
        ⟨fun hne => absurd hmask hne, fun hne => absurd hmask hne, hstops⟩, h.idle, fun p hp =>
          { h.played p hp with }⟩
    · obtain ⟨hinside, hkeeps⟩ := hsuits hmask
      refine ⟨h.sized.next hroom, h.steps, h.masks,
        ⟨fun _ => ⟨s.pwm.range, if_neg hmask, sum_publish hinside⟩, hruns, hstops⟩,
          h.idle, fun p hp => ?_⟩
      have hplayed := h.played p hp
      have hcount : s.isr.stepcount < 32 := hplayed.stepcount.trans_lt hplayed.sized.stepsLen
      have hahead : ∀ i < s.isr.stepcount + 1, s.isr.currentStep < i →
          s.pwm.next.load i = p.schedule.load i := fun i hi hlt =>
        ((hkeeps (by omega)).load_next h.sized hcount hi hlt).trans (hplayed.ahead i hi hlt)
      exact { hplayed with ahead := hahead }
  · cases ht

/-- **The call ends.** -/
theorem Good.switch (h : s.Good) (ht : s.switch = some t) : t.Good := by
  unfold Timer.switch at ht
  have htodo := h.todo
  unfold TodoHolds at htodo
  split at ht
  · rename_i start stop hswitch
    rw [hswitch] at htodo
    obtain ⟨hlive, hruns, hstops⟩ := htodo
    cases ht
    refine ⟨h.sized, h.steps, h.masks, ?_, h.idle, h.played⟩
    by_cases hmask : s.pwm.mask = 0#32
    · -- no pin is in use: the timer does not run, or is stopped
      obtain ⟨hstart, hstop⟩ := hstops hmask
      have hoff : (if stop && decide (s.pwm.mask = 0#32) then false else if start then true
          else s.running) = false := by
        rw [hstart, decide_eq_true hmask, Bool.and_true]
        cases hrunning : s.running with
        | false => cases stop <;> rfl
        | true => rw [hstop hrunning]; rfl
      exact ⟨fun hon => absurd (hoff.symm.trans hon) Bool.false_ne_true, fun hne =>
        absurd hmask hne, fun _ => hoff⟩
    · have hon : (if stop && decide (s.pwm.mask = 0#32) then false else if start then true
          else s.running) = true := by
        rw [decide_eq_false hmask, Bool.and_false]
        rcases hruns hmask with hrunning | hstart
        · rw [hrunning]
          cases start <;> rfl
        · rw [hstart]
          rfl
      exact ⟨fun _ => hlive hmask, fun _ => hon, fun hzero => absurd hzero hmask⟩
  · cases ht

/-- **One event.** -/
theorem Good.step (h : s.Good) {e : Event} (he : s.Admitted e) (ht : s.step e = some t) :
    t.Good := by
  cases e with
  | isr => exact h.interrupt ht
  | enter c => exact h.enter c ht
  | prepare => exact h.prepare he ht
  | switch => exact h.switch ht

/-- The interrupt finds what it reads. -/
theorem Good.exists_interrupt (h : s.Good) (hrunning : s.running = true) :
    ∃ t, s.interrupt = some t := by
  have hlen := h.sized.stepsLen
  have hisr : ∃ r, s.pwm.timerIsr s.isr = some r := by
    unfold timerIsr
    split
    · rename_i hlt
      obtain ⟨p, hp⟩ : ∃ p, s.period = some p := by
        cases hp : s.period with
        | none =>
          have hidle := h.idle hp
          omega
        | some p => exact ⟨p, rfl⟩
      have hplayed := h.played p hp
      have hsize := hplayed.sized.stepsLen
      have hstepcount := hplayed.stepcount
      obtain ⟨x, hx⟩ := h.sized.exists_load (i := s.isr.currentStep + 1) (by omega)
      rw [hx, List.getElem?_eq_getElem (by rw [h.masks]; omega)]
      exact ⟨_, rfl⟩
    · split
      · exact ⟨_, rfl⟩
      · obtain ⟨x, hx⟩ := h.sized.exists_load (i := 0) (by decide)
        have hsteps := h.sized.steps
        have hmasks := h.sized.masks
        have hisrSteps := h.steps
        have hisrMasks := h.masks
        rw [hx, Block.read_eq (by omega), Block.read_eq (by omega)]
        simp only [Option.bind_eq_bind, Option.bind_some]
        rw [Block.write_eq (by rw [List.length_take, List.length_drop]; omega),
          Block.write_eq (by rw [List.length_take, List.length_drop]; omega)]
        exact ⟨_, rfl⟩
  obtain ⟨r, hr⟩ := hisr
  unfold Timer.interrupt
  rw [if_pos hrunning, hr]
  exact ⟨_, rfl⟩

end Timer

/-- What has been played is what the schedule says. -/
theorem Period.Played.fromSchedule (h : p.Played s v) : p.FromSchedule v.currentStep := by
  refine ⟨h.loads, h.clears, fun hk => ?_⟩
  obtain ⟨range, hrange, hsum⟩ := h.range
  have hall : p.schedule.published.take (v.currentStep + 1) = p.schedule.published :=
    List.take_of_length_le (by rw [hk]; exact List.length_take_le _ _)
  rw [h.loads, hall]
  refine ⟨range, hrange, ?_, fun hlt => ?_⟩
  · rw [sum_map_ticks_mod, hsum]
  · rw [sum_map_ticks (hsum.symm ▸ hlt), hsum]

/-- **Every period plays one schedule**, whatever happens in between, and the
interrupt is always possible while the timer runs. -/
theorem onePeriod_of_run {es : List Event} {s : Timer}
    (h : Timer.machine.Along Timer.Admitted Timer.start es)
    (hrun : Timer.machine.run Timer.start es = some s) :
    (∀ p, s.period = some p → p.FromSchedule s.isr.currentStep ∧
      s.isr.stepcount = p.schedule.stepsLen) ∧
      (s.running = true → ∃ t, s.step .isr = some t) := by
  have hgood : s.Good := Machine.invariant_of_along (fun _ _ _ hs he ht => hs.step he ht)
    Timer.good_start h hrun
  exact ⟨fun p hp => ⟨(hgood.played p hp).fromSchedule, (hgood.played p hp).stepcount⟩,
    fun hrunning => hgood.exists_interrupt hrunning⟩

/-- A second pin comes into use between two periods, and gets its value again in
the middle of one. -/
def twoPins : List Event :=
  [.enter (.analogWrite 2 512), .prepare, .switch, .isr, .isr, .enter (.analogWrite 5 100),
    .prepare, .switch, .isr, .isr, .enter (.analogWrite 5 100), .prepare, .switch, .isr]

theorem onePeriod_of_run_two :
    ∃ s, Timer.machine.run Timer.start twoPins = some s ∧
      (∀ p, s.period = some p → p.FromSchedule s.isr.currentStep ∧
        s.isr.stepcount = p.schedule.stepsLen) ∧
      (s.running = true → ∃ t, s.step .isr = some t) := by
  obtain ⟨s, hs⟩ := Option.isSome_iff_exists.mp
    (by decide : (Timer.machine.run Timer.start twoPins).isSome = true)
  exact ⟨s, hs, onePeriod_of_run (by decide) hs⟩

/-- **Another multiplier** in the middle of a period: the frequency is halved
while the pin is high. -/
theorem not_onePeriod :
    ¬ ∀ (es : List Event) (s : Timer), Timer.machine.run Timer.start es = some s →
    ∀ p, s.period = some p → p.FromSchedule s.isr.currentStep := by
  intro h
  have hmixed : (Timer.machine.run Timer.start
      [.enter (.analogWrite 2 512), .prepare, .switch, .isr, .enter (.analogWriteFreq 500),
        .prepare, .isr]).bind
        (fun s => s.period.map fun p =>
          decide (p.loads = (p.schedule.published.take (s.isr.currentStep + 1)).map
            p.schedule.ticks)) = some false := by
    decide
  obtain ⟨s, hs, hp⟩ := Option.bind_eq_some_iff.mp hmixed
  obtain ⟨p, hp, hloads⟩ := Option.map_eq_some_iff.mp hp
  exact of_decide_eq_false hloads (h _ s hs p hp).loads

end Pwm
