import Mathlib.Data.List.Basic
import Mathlib.Data.Option.Basic

/-!
# Transducers and refinement

A component with an interface is a transducer: an operation takes a state to
an answer and a new state. `Transducer.step` is partial, so that an
operation that never returns is a possible outcome of the model and has to
be excluded by proof.

One transducer implements another when every operation of the abstract one
is matched by the concrete one with the same answer, from any pair of
related states. `Transducer.run_refines` carries that along a whole list of
operations: the concrete component completes every one of them, gives the
abstract answers, and ends related. A condition on the concrete steps can
restrict which operations are made.
-/

/-- **A component with an interface**: operations `ε`, answers `ω`. -/
structure Transducer (σ ε ω : Type*) where
  step : σ → ε → Option (ω × σ)

namespace Transducer

variable {σ τ ε ω : Type*}

/-- The answers to a list of operations and the state after them. -/
def run (C : Transducer σ ε ω) : σ → List ε → Option (List ω × σ)
  | s, [] => some ([], s)
  | s, e :: es => (C.step s e).bind (fun r => (run C r.2 es).map (fun t => (r.1 :: t.1, t.2)))

/-- Every step of the run meets `P`. -/
def Along (C : Transducer σ ε ω) (P : σ → ε → Prop) : σ → List ε → Prop
  | _, [] => True
  | s, e :: es => P s e ∧ ∀ o t, C.step s e = some (o, t) → Along C P t es

/-- A condition that can be tested on each step can be tested along a run. -/
instance decidableAlong (C : Transducer σ ε ω) (P : σ → ε → Prop) [∀ s e, Decidable (P s e)] :
    ∀ (s : σ) (es : List ε), Decidable (C.Along P s es)
  | _, [] => inferInstanceAs (Decidable True)
  | s, e :: es =>
    match hs : C.step s e with
    | none => decidable_of_iff (P s e) (by simp [Along, hs])
    | some (o, t) =>
      have : Decidable (C.Along P t es) := decidableAlong C P t es
      decidable_of_iff (P s e ∧ C.Along P t es) (by simp [Along, hs])

/-- **The refinement rule.** If every admitted operation is answered alike
from related states, every admitted list of operations is. -/
theorem run_refines {C : Transducer σ ε ω} {A : Transducer τ ε ω} {R : σ → τ → Prop}
    {P : σ → ε → Prop}
    (hstep : ∀ s q e, R s q → P s e →
      ∃ o s' q', C.step s e = some (o, s') ∧ A.step q e = some (o, q') ∧ R s' q')
    {s : σ} {q : τ} {es : List ε} (hR : R s q) (hP : C.Along P s es) :
    ∃ os s' q', C.run s es = some (os, s') ∧ A.run q es = some (os, q') ∧ R s' q' := by
  induction es generalizing s q with
  | nil => exact ⟨[], s, q, rfl, rfl, hR⟩
  | cons e es ih =>
    obtain ⟨o, t, r, hC, hA, hR'⟩ := hstep s q e hR hP.1
    obtain ⟨os, s', q', hrunC, hrunA, hR''⟩ := ih hR' (hP.2 o t hC)
    exact ⟨o :: os, s', q', by simp [run, hC, hrunC], by simp [run, hA, hrunA], hR''⟩

/-- **A component of whose answers only a part is looked at.** -/
def seen {ω' : Type*} (C : Transducer σ ε ω) (f : ε → ω → ω') : Transducer σ ε ω' where
  step s e := (C.step s e).map (fun r => (f e r.1, r.2))

/-- A condition on the steps of a run does not depend on what is looked at. -/
theorem Along.seen {ω' : Type*} {C : Transducer σ ε ω} {P : σ → ε → Prop}
    (f : ε → ω → ω') {s : σ}
    {es : List ε} (h : C.Along P s es) : (C.seen f).Along P s es := by
  induction es generalizing s with
  | nil => trivial
  | cons e es ih =>
    refine ⟨h.1, fun o t hstep => ?_⟩
    obtain ⟨⟨o', t'⟩, hstep', heq⟩ := Option.map_eq_some_iff.mp hstep
    obtain ⟨-, rfl⟩ := Prod.mk.inj heq
    exact ih (h.2 o' t' hstep')

/-- **The invariant rule for runs of some operations.** What each of them keeps, a run of them
keeps. -/
theorem invariant_of_run {C : Transducer σ ε ω} {P : ε → Prop} {I : σ → Prop}
    (hstep : ∀ s e o t, I s → P e → C.step s e = some (o, t) → I t)
    {s t : σ} {es : List ε} {os : List ω} (hs : I s) (hes : ∀ e ∈ es, P e)
    (hrun : C.run s es = some (os, t)) : I t := by
  induction es generalizing s os with
  | nil =>
    obtain ⟨-, rfl⟩ := Prod.mk.inj (Option.some.inj hrun)
    exact hs
  | cons e es ih =>
    obtain ⟨he, hes⟩ := List.forall_mem_cons.mp hes
    obtain ⟨⟨o, u⟩, hu, hrun⟩ := Option.bind_eq_some_iff.mp hrun
    obtain ⟨⟨os', t'⟩, hrun', heq⟩ := Option.map_eq_some_iff.mp hrun
    obtain ⟨-, rfl⟩ := Prod.mk.inj heq
    exact ih (hstep s e o u hs he hu) hes hrun'

/-- **A run that cannot go on.** Where an operation never returns from a state that the others
keep, no run with it does. -/
theorem run_eq_none {C : Transducer σ ε ω} {P : ε → Prop} {I : σ → Prop}
    (hstep : ∀ s e o t, I s → P e → C.step s e = some (o, t) → I t)
    {s : σ} {es : List ε} {e : ε} (hs : I s) (hes : ∀ e ∈ es, P e) (he : e ∈ es)
    (hstuck : ∀ s, I s → C.step s e = none) : C.run s es = none := by
  induction es generalizing s with
  | nil => cases he
  | cons d es ih =>
    obtain ⟨hd, hes⟩ := List.forall_mem_cons.mp hes
    rw [run]
    cases hu : C.step s d with
    | none => rfl
    | some r =>
      obtain rfl | he := List.mem_cons.mp he
      · rw [hstuck s hs] at hu
        cases hu
      · rw [Option.bind_some, ih (hstep s d r.1 r.2 hs hd hu) hes he, Option.map_none]

end Transducer
