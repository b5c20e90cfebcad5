import Mathlib.Data.List.Basic
import Mathlib.Data.Option.Basic

/-!
# Event-driven machines

A component whose code runs in several contexts – an application thread, the
callbacks of a network stack, an interrupt – is modelled as a machine: a
state, and a partial step for each event. An interleaving is then nothing
but a list of events, `Machine.run` replays it, and a statement about every
interleaving is a statement about every list.

Two things are said of runs. `Machine.Along P s es` says that every step of
the run meets `P`, a condition on the state before the step and the event;
it is how a run is restricted without fixing its events.
`Machine.invariant_of_along` is the induction: what holds initially and is
kept by every step that meets the condition holds in the state reached. The
list of events is arbitrary, so that is every state of the run.
-/

/-- **An event-driven machine**: `step` is `none` where the event cannot
happen. -/
structure Machine (σ ε : Type*) where
  step : σ → ε → Option σ

namespace Machine

variable {σ ε : Type*} (M : Machine σ ε)

/-- The state after a list of events, if all of them can happen in turn. -/
def run : σ → List ε → Option σ
  | s, [] => some s
  | s, e :: es => (M.step s e).bind (fun t => run t es)

@[simp] theorem run_nil (s : σ) : M.run s [] = some s := rfl

theorem run_cons_eq_some {s t : σ} {e : ε} {es : List ε} :
    M.run s (e :: es) = some t ↔ ∃ u, M.step s e = some u ∧ M.run u es = some t := by
  rw [run, Option.bind_eq_some_iff]

theorem run_append (s : σ) (es fs : List ε) :
    M.run s (es ++ fs) = (M.run s es).bind (fun t => M.run t fs) := by
  induction es generalizing s with
  | nil => rfl
  | cons e es ih =>
    rw [List.cons_append, run, run, Option.bind_assoc]
    exact congrArg _ (funext fun t => ih t)

/-- A step that is guarded was allowed. -/
theorem of_guard {α : Type*} {p : Prop} [Decidable p] {a b : α}
    (h : (if p then some a else none) = some b) :
    p ∧ a = b := by
  obtain ⟨hp, hab⟩ := Option.ite_none_right_eq_some.mp h
  exact ⟨hp, Option.some.inj hab⟩

theorem of_guard_not {α : Type*} {p : Prop} [Decidable p] {a b : α}
    (h : (if p then none else some a) = some b) :
    ¬ p ∧ a = b := by
  obtain ⟨hp, hab⟩ := Option.ite_none_left_eq_some.mp h
  exact ⟨hp, Option.some.inj hab⟩

/-- **Every step of the run meets `P`**, a condition on the state before the
step and on the event. -/
def Along (P : σ → ε → Prop) : σ → List ε → Prop
  | _, [] => True
  | s, e :: es => P s e ∧ ∀ t, M.step s e = some t → Along P t es

/-- A condition that can be tested on each step can be tested along a run. -/
instance decidableAlong (P : σ → ε → Prop) [∀ s e, Decidable (P s e)] :
    ∀ (s : σ) (es : List ε), Decidable (M.Along P s es)
  | _, [] => inferInstanceAs (Decidable True)
  | s, e :: es =>
    match hs : M.step s e with
    | none => decidable_of_iff (P s e) (by simp [Along, hs])
    | some t =>
      have : Decidable (M.Along P t es) := decidableAlong P t es
      decidable_of_iff (P s e ∧ M.Along P t es) (by simp [Along, hs])

variable {M}

/-- A condition on the events alone. -/
theorem along_of_forall {P : ε → Prop} {s : σ} {es : List ε} (h : ∀ e ∈ es, P e) :
    M.Along (fun _ e => P e) s es := by
  induction es generalizing s with
  | nil => trivial
  | cons e es ih =>
    exact ⟨h e List.mem_cons_self, fun t _ => ih fun f hf => h f (List.mem_cons_of_mem e hf)⟩

theorem Along.and {P Q : σ → ε → Prop} {s : σ} {es : List ε} (hP : M.Along P s es)
    (hQ : M.Along Q s es) : M.Along (fun s e => P s e ∧ Q s e) s es := by
  induction es generalizing s with
  | nil => trivial
  | cons e es ih => exact ⟨⟨hP.1, hQ.1⟩, fun t ht => ih (hP.2 t ht) (hQ.2 t ht)⟩

theorem along_append {P : σ → ε → Prop} {s : σ} {es fs : List ε} :
    M.Along P s (es ++ fs) ↔ M.Along P s es ∧ ∀ t, M.run s es = some t → M.Along P t fs := by
  induction es generalizing s with
  | nil => exact ⟨fun h => ⟨trivial, fun t ht => Option.some.inj ht ▸ h⟩, fun h => h.2 s rfl⟩
  | cons e es ih =>
    constructor
    · rintro ⟨he, hes⟩
      refine ⟨⟨he, fun u hu => (ih.mp (hes u hu)).1⟩, fun t ht => ?_⟩
      obtain ⟨u, hu, ht⟩ := (run_cons_eq_some M).mp ht
      exact (ih.mp (hes u hu)).2 t ht
    · rintro ⟨⟨he, hes⟩, hfs⟩
      exact ⟨he, fun u hu => ih.mpr ⟨hes u hu, fun t ht =>
        hfs t ((run_cons_eq_some M).mpr ⟨u, hu, ht⟩)⟩⟩

/-- **The invariant rule for restricted runs.** What every admitted step
keeps, every admitted run keeps. -/
theorem invariant_of_along {P : σ → ε → Prop} {I : σ → Prop}
    (hstep : ∀ s e t, I s → P s e → M.step s e = some t → I t)
    {s t : σ} {es : List ε} (hs : I s) (hP : M.Along P s es) (hrun : M.run s es = some t) :
    I t := by
  induction es generalizing s with
  | nil =>
    rw [run_nil, Option.some.injEq] at hrun
    exact hrun ▸ hs
  | cons e es ih =>
    obtain ⟨u, hu, hrun⟩ := (run_cons_eq_some M).mp hrun
    exact ih (hstep s e u hs hP.1 hu) (hP.2 u hu) hrun

/-- **The invariant rule for all runs.** -/
theorem invariant_of_run {I : σ → Prop} (hstep : ∀ s e t, I s → M.step s e = some t → I t)
    {s t : σ} {es : List ε} (hs : I s) (hrun : M.run s es = some t) : I t := by
  induction es generalizing s with
  | nil =>
    rw [run_nil, Option.some.injEq] at hrun
    exact hrun ▸ hs
  | cons e es ih =>
    obtain ⟨u, hu, hrun⟩ := (run_cons_eq_some M).mp hrun
    exact ih (hstep s e u hs hu) hrun

/-- **The rule for runs that go on.** Where every admitted step is possible from
a state that meets the invariant, and keeps it, so is every admitted run. -/
theorem exists_run_of_along {P : σ → ε → Prop} {I : σ → Prop}
    (hstep : ∀ s e, I s → P s e → ∃ t, M.step s e = some t ∧ I t)
    {s : σ} {es : List ε} (hs : I s) (hP : M.Along P s es) :
    ∃ t, M.run s es = some t ∧ I t := by
  induction es generalizing s with
  | nil => exact ⟨s, rfl, hs⟩
  | cons e es ih =>
    obtain ⟨u, hu, hI⟩ := hstep s e hs hP.1
    obtain ⟨t, ht, hI'⟩ := ih hI (hP.2 u hu)
    exact ⟨t, (run_cons_eq_some M).mpr ⟨u, hu, ht⟩, hI'⟩

/-- **The converse.** Where a step that is possible meets the condition, every
possible run does. -/
theorem along_of_run {P : σ → ε → Prop} {I : σ → Prop}
    (hstep : ∀ s e t, I s → M.step s e = some t → P s e ∧ I t)
    {s t : σ} {es : List ε} (hs : I s) (hrun : M.run s es = some t) : M.Along P s es := by
  induction es generalizing s with
  | nil => trivial
  | cons e es ih =>
    obtain ⟨u, hu, hrun⟩ := (run_cons_eq_some M).mp hrun
    obtain ⟨hP, hI⟩ := hstep s e u hs hu
    refine ⟨hP, fun u' hu' => ?_⟩
    obtain rfl := Option.some.inj (hu.symm.trans hu')
    exact ih hI hrun

end Machine
