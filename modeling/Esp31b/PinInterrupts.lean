import Esp31b.Machine
import Mathlib.Data.Fintype.Basic
import Mathlib.Data.List.FinRange

/-!
# Interrupts of pins

A pin whose interrupt is attached has one of eight slots, which are the units of the pulse
counter: the handler of a unit is the function of its slot. `attachInterrupt` takes the first
slot that is free, and `detachInterrupt` frees the first one that has the pin.

So a pin that is attached once more, to change its function or mode, has two slots, or is
refused if there is no other one; and it is still there when it was detached. As long as
only pins without a slot are attached, each has at most one, and everything is as it should be
(`PinInterrupts.slots_of_run`). No other call does any good
(`PinInterrupts.does_iff_fresh`).
-/

namespace PinInterrupts

/-- `pin_int_handler_t`. -/
structure Handler (Fn : Type) where
  pin : Int8
  mode : UInt8
  fn : Option Fn
  deriving DecidableEq, Repr

/-- `interrupt_handlers`. -/
abbrev Handlers (Fn : Type) := Fin 8 → Handler Fn

variable {Fn : Type}

/-- The loop over the slots, to the first with this pin. -/
def slotWith (handlers : Handlers Fn) (pin : ℤ) : Option (Fin 8) :=
  (List.finRange 8).find? fun intr_num => (handlers intr_num).pin.toInt = pin

/-- **`attachInterrupt`**, without the registers. -/
def attachInterrupt (handlers : Handlers Fn) (gpio_num : UInt8) (userFunc : Option Fn)
    (intr_type : Int32) : Handlers Fn :=
  match slotWith handlers (-1) with
  | none => handlers
  | some intr_num =>
    Function.update handlers intr_num
      { pin := gpio_num.toInt8, mode := intr_type.toUInt32.toUInt8, fn := userFunc }

/-- **`detachInterrupt`**. -/
def detachInterrupt (handlers : Handlers Fn) (gpio_num : UInt8) : Handlers Fn :=
  match slotWith handlers gpio_num.toNat with
  | none => handlers
  | some intr_num => Function.update handlers intr_num { pin := -1, mode := 0, fn := none }

/-- `initPins`. -/
def initPins : Handlers Fn := fun _ => { pin := -1, mode := 0, fn := none }

/-- The loop of `__onPinInterrupt` over the units that have an interrupt: the functions that are
called, with the pins of their slots. A function may attach pins and detach them. -/
def interruptLoop (call : Fn → Handlers Fn → Handlers Fn) :
    Handlers Fn → List (Fin 8) → List (Int8 × Fn)
  | _, [] => []
  | handlers, intr_num :: units =>
    match (handlers intr_num).fn with
    | none => interruptLoop call handlers units
    | some fn =>
      if (handlers intr_num).pin ≥ 0 then
        ((handlers intr_num).pin, fn) :: interruptLoop call (call fn handlers) units
      else interruptLoop call handlers units

/-- **`__onPinInterrupt`**, with the bits of `intr_status`, the lowest one first. -/
def onPinInterrupt (call : Fn → Handlers Fn → Handlers Fn) (handlers : Handlers Fn)
    (intr_status : Fin 8 → Bool) : List (Int8 × Fn) :=
  interruptLoop call handlers ((List.finRange 8).filter intr_status)

/-- The calls, for a pin below 40. -/
inductive Call (Fn : Type) where
  | attach (pin : Fin 40) (fn : Option Fn) (mode : Int32)
  | detach (pin : Fin 40)
  deriving DecidableEq

/-- A pin as an argument. -/
def gpio (pin : Fin 40) : UInt8 := UInt8.ofNat pin

/-- What a call leaves. -/
def Call.run (handlers : Handlers Fn) : Call Fn → Handlers Fn
  | attach pin fn mode => attachInterrupt handlers (gpio pin) fn mode
  | detach pin => detachInterrupt handlers (gpio pin)

/-- The slots as a machine. -/
def machine : Machine (Handlers Fn) (Call Fn) := ⟨fun handlers c => some (c.run handlers)⟩

/-! ## What the slots are for -/

/-- A slot refers to a pin. -/
def Has (handlers : Handlers Fn) (pin : Fin 40) (intr_num : Fin 8) : Prop :=
  (handlers intr_num).pin.toInt = (pin : ℕ)

/-- A slot is free. -/
def IsFree (handlers : Handlers Fn) (intr_num : Fin 8) : Prop :=
  (handlers intr_num).pin.toInt = -1

/-- **Each pin has at most one slot.** -/
def AtMostOne (handlers : Handlers Fn) : Prop :=
  ∀ pin j k, Has handlers pin j → Has handlers pin k → j = k

/-- **What a call should do**: a pin that is attached has its newest function and mode, if it
had a slot or there was one; a pin that is detached has none, and no function is called for it
unless one that is called attaches it again. -/
def Does (handlers : Handlers Fn) : Call Fn → Prop
  | .attach pin fn mode =>
    ((∃ k, Has handlers pin k) ∨ ∃ k, IsFree handlers k) →
      ∃ k, attachInterrupt handlers (gpio pin) fn mode k =
        ⟨(gpio pin).toInt8, mode.toUInt32.toUInt8, fn⟩
  | .detach pin =>
    (∀ k, ¬ Has (detachInterrupt handlers (gpio pin)) pin k) ∧
      ∀ call : Fn → Handlers Fn → Handlers Fn,
        (∀ fn handlers, (∀ k, ¬ Has handlers pin k) → ∀ k, ¬ Has (call fn handlers) pin k) →
        ∀ intr_status, ∀ c ∈ onPinInterrupt call
          (detachInterrupt handlers (gpio pin)) intr_status,
          c.1.toInt ≠ (pin : ℕ)

/-- **The pin has no slot**, if it is attached; or there is no free one, and the one that it has
is just what it is given. -/
def Fresh (handlers : Handlers Fn) : Call Fn → Prop
  | .attach pin fn mode =>
    (∀ k, ¬ Has handlers pin k) ∨
      (∀ k, ¬ IsFree handlers k) ∧
        ∃ k, handlers k = ⟨(gpio pin).toInt8, mode.toUInt32.toUInt8, fn⟩
  | .detach _ => True

instance (handlers : Handlers Fn) (pin : Fin 40) (intr_num : Fin 8) :
    Decidable (Has handlers pin intr_num) := inferInstanceAs (Decidable (_ = _))

instance (handlers : Handlers Fn) (intr_num : Fin 8) : Decidable (IsFree handlers intr_num) :=
  inferInstanceAs (Decidable (_ = _))

instance [DecidableEq Fn] (handlers : Handlers Fn) :
    (c : Call Fn) → Decidable (Fresh handlers c)
  | .attach _ _ _ => inferInstanceAs (Decidable (_ ∨ _))
  | .detach _ => inferInstanceAs (Decidable True)

instance (handlers : Handlers Fn) : Decidable (AtMostOne handlers) :=
  inferInstanceAs (Decidable (∀ _ _ _, _))

variable {handlers : Handlers Fn} {pin : Fin 40} {j k : Fin 8} {c : Call Fn}

/-! ## One call -/

/-- A pin keeps its number in a slot. -/
theorem toInt_gpio (pin : Fin 40) : (gpio pin).toInt8.toInt = (pin : ℕ) := by
  revert pin
  decide

theorem toNat_gpio (pin : Fin 40) : (gpio pin).toNat = pin := by
  revert pin
  decide

theorem slotWith_eq_none {n : ℤ} :
    slotWith handlers n = none ↔ ∀ k, (handlers k).pin.toInt ≠ n := by
  unfold slotWith
  rw [List.find?_eq_none]
  simp

theorem slotWith_eq_some {n : ℤ} (h : slotWith handlers n = some k) :
    (handlers k).pin.toInt = n := by
  simpa using List.find?_some h

/-- **What `attachInterrupt` leaves**: the first free slot is the pin's. -/
theorem attach_cases (handlers : Handlers Fn) (pin : Fin 40) (fn : Option Fn) (mode : Int32) :
    (∀ k, ¬ IsFree handlers k) ∧ attachInterrupt handlers (gpio pin) fn mode = handlers ∨
      ∃ k, IsFree handlers k ∧ attachInterrupt handlers (gpio pin) fn mode =
        Function.update handlers k ⟨(gpio pin).toInt8, mode.toUInt32.toUInt8, fn⟩ := by
  unfold attachInterrupt
  cases hslot : slotWith handlers (-1) with
  | none => exact Or.inl ⟨slotWith_eq_none.mp hslot, rfl⟩
  | some k => exact Or.inr ⟨k, slotWith_eq_some hslot, rfl⟩

/-- **What `detachInterrupt` leaves**: one of the slots of the pin is free. -/
theorem detach_cases (handlers : Handlers Fn) (pin : Fin 40) :
    (∀ k, ¬ Has handlers pin k) ∧ detachInterrupt handlers (gpio pin) = handlers ∨
      ∃ k, Has handlers pin k ∧
        detachInterrupt handlers (gpio pin) = Function.update handlers k ⟨-1, 0, none⟩ := by
  unfold detachInterrupt
  rw [toNat_gpio]
  cases hslot : slotWith handlers (pin : ℕ) with
  | none => exact Or.inl ⟨slotWith_eq_none.mp hslot, rfl⟩
  | some k => exact Or.inr ⟨k, slotWith_eq_some hslot, rfl⟩

/-- What a slot has that was given to a pin. -/
theorem has_update {h : Handler Fn} {p : Fin 40} :
    Has (Function.update handlers k h) p j ↔
      j = k ∧ h.pin.toInt = (p : ℕ) ∨ j ≠ k ∧ Has handlers p j := by
  unfold Has
  by_cases hjk : j = k
  · subst hjk
    simp
  · simp [hjk]

theorem not_has_of_isFree (h : IsFree handlers k) (pin : Fin 40) : ¬ Has handlers pin k := by
  unfold IsFree at h
  unfold Has
  omega

/-- **No function is called for a pin without a slot**, if none that is called attaches it. -/
theorem ne_of_mem_interruptLoop {call : Fn → Handlers Fn → Handlers Fn}
    (hcall : ∀ fn handlers, (∀ k, ¬ Has handlers pin k) → ∀ k, ¬ Has (call fn handlers) pin k)
    {units : List (Fin 8)} (hnot : ∀ k, ¬ Has handlers pin k) :
    ∀ c ∈ interruptLoop call handlers units, c.1.toInt ≠ (pin : ℕ) := by
  induction units generalizing handlers with
  | nil => exact fun c hc => nomatch hc
  | cons intr_num units ih =>
    rw [interruptLoop]
    cases (handlers intr_num).fn with
    | none => exact ih hnot
    | some fn =>
      dsimp only
      split
      · intro c hc
        rcases List.mem_cons.mp hc with rfl | hc
        · exact hnot intr_num
        · exact ih (hcall fn handlers hnot) c hc
      · exact ih hnot

/-- **A pin with at most one slot** has none when it is detached. -/
theorem AtMostOne.detach (h : AtMostOne handlers) (pin : Fin 40) :
    AtMostOne (detachInterrupt handlers (gpio pin)) ∧
      ∀ k, ¬ Has (detachInterrupt handlers (gpio pin)) pin k := by
  obtain ⟨hnone, heq⟩ | ⟨k, hk, heq⟩ := detach_cases handlers pin
  · rw [heq]
    exact ⟨h, hnone⟩
  · rw [heq]
    have hfree : ∀ p : Fin 40, ¬ (-1 : Int8).toInt = (p : ℕ) := by decide
    refine ⟨fun p i j hi hj => ?_, fun j hj => ?_⟩
    · obtain ⟨-, hi⟩ := (has_update.mp hi).resolve_left fun hi => hfree p hi.2
      obtain ⟨-, hj⟩ := (has_update.mp hj).resolve_left fun hj => hfree p hj.2
      exact h p i j hi hj
    · obtain ⟨hne, hj⟩ := (has_update.mp hj).resolve_left fun hj => hfree pin hj.2
      exact hne (h pin j k hj hk)

/-- **A pin that had no slot** has one at most when it is attached. -/
theorem AtMostOne.attach (h : AtMostOne handlers) {fn : Option Fn} {mode : Int32}
    (hnot : ∀ k, ¬ Has handlers pin k) :
    AtMostOne (attachInterrupt handlers (gpio pin) fn mode) := by
  obtain ⟨-, heq⟩ | ⟨k, -, heq⟩ := attach_cases handlers pin fn mode
  · rw [heq]
    exact h
  · rw [heq]
    intro p i j hi hj
    rw [has_update, toInt_gpio] at hi hj
    obtain ⟨rfl, hi⟩ | ⟨-, hi⟩ := hi <;> obtain ⟨rfl, hj⟩ | ⟨-, hj⟩ := hj
    · rfl
    · exact absurd hj (Fin.ext (Int.ofNat_inj.mp hi) ▸ hnot j)
    · exact absurd hi (Fin.ext (Int.ofNat_inj.mp hj) ▸ hnot i)
    · exact h p i j hi hj

/-- **A call does what it should**, and leaves at most one slot for each pin, exactly if it is
no attachment of a pin that has one already. -/
theorem does_iff_fresh (h : AtMostOne handlers) :
    AtMostOne (c.run handlers) ∧ Does handlers c ↔ Fresh handlers c := by
  cases c with
  | detach pin =>
    obtain ⟨hone, hnone⟩ := h.detach pin
    refine iff_of_true ⟨hone, hnone, fun call hcall intr_status => ?_⟩ trivial
    exact ne_of_mem_interruptLoop hcall hnone
  | attach pin fn mode =>
    obtain ⟨hfull, heq⟩ | ⟨k, hfree, heq⟩ := attach_cases handlers pin fn mode
    · -- there is no slot for it, and nothing changes
      refine (and_iff_right (by rw [Call.run, heq]; exact h)).trans ⟨fun hdoes => ?_, ?_⟩
      · refine or_iff_not_imp_left.mpr fun hnot => ⟨hfull, ?_⟩
        obtain ⟨k, hk⟩ := hdoes (Or.inl (not_forall_not.mp hnot))
        exact ⟨k, by rw [← hk, heq]⟩
      · rintro (hnot | ⟨-, k, hk⟩) hslot
        · exact absurd hslot (not_or.mpr ⟨not_exists.mpr hnot, not_exists.mpr hfull⟩)
        · exact ⟨k, by rw [heq, hk]⟩
    · have hdoes : Does handlers (.attach pin fn mode) := fun _ =>
        ⟨k, by rw [heq, Function.update_self]⟩
      rw [and_iff_left hdoes]
      constructor
      · intro hone
        refine Or.inl fun j hj => ?_
        have hjk : j ≠ k := fun hjk => not_has_of_isFree hfree pin (hjk ▸ hj)
        rw [Call.run, heq] at hone
        exact hjk (hone pin j k (has_update.mpr (Or.inr ⟨hjk, hj⟩))
          (has_update.mpr (Or.inl ⟨rfl, toInt_gpio pin⟩)))
      · rintro (hnot | ⟨hfull, -⟩)
        · exact h.attach hnot
        · exact absurd hfree (hfull k)

/-! ## Every run -/

theorem atMostOne_initPins : AtMostOne (initPins : Handlers Fn) := by
  intro pin j k hj
  have hfree : IsFree (initPins : Handlers Fn) j := show (-1 : Int8).toInt = -1 by decide
  exact absurd hj (not_has_of_isFree hfree pin)

/-- **Every run that attaches only pins without a slot** leaves at most one slot for each pin,
and does with the next such call what that should do. -/
theorem slots_of_run {calls : List (Call Fn)} (hfresh : machine.Along Fresh initPins calls)
    (hrun : machine.run initPins calls = some handlers) :
    AtMostOne handlers ∧ ∀ c, Fresh handlers c → Does handlers c := by
  have hone : AtMostOne handlers :=
    Machine.invariant_of_along (fun handlers c t hone hc hstep => by
      obtain rfl : c.run handlers = t := Option.some.inj hstep
      exact ((does_iff_fresh hone).mpr hc).1) atMostOne_initPins hfresh hrun
  exact ⟨hone, fun c hc => ((does_iff_fresh hone).mpr hc).2⟩

/-- Two pins, the first of them attached anew when it was detached. -/
def freshRun : List (Call ℕ) :=
  [.attach 4 (some 0) 1, .attach 5 (some 1) 2, .detach 4, .attach 4 (some 2) 3]

theorem slots_of_freshRun :
    ∃ handlers : Handlers ℕ, machine.run initPins freshRun = some handlers ∧
    AtMostOne handlers ∧ Does handlers (.detach 4) := by
  obtain ⟨hone, hdoes⟩ := slots_of_run (by decide : machine.Along Fresh initPins freshRun) rfl
  exact ⟨_, rfl, hone, hdoes _ trivial⟩

/-- **A pin that was attached twice** has two slots, and one of them when it was detached. -/
theorem not_slots_of_every_run :
    ¬ ∀ (calls : List (Call ℕ)) (handlers : Handlers ℕ),
      machine.run initPins calls = some handlers → AtMostOne handlers ∧ ∀ c,
        Does handlers c := by
  intro h
  have hone := (h [.attach 4 (some 0) 1, .attach 4 (some 1) 2] _ rfl).1
  exact absurd (hone 4 0 1 (by decide) (by decide)) (by decide)

end PinInterrupts
