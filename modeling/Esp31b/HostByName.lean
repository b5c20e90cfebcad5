import Esp31b.Machine
import Mathlib.Data.Int.Notation
import Mathlib.Data.Nat.Notation

/-!
# Looking up a name

`hostByName` asks `dns_gethostbyname` for an address. If that has to be searched for, the
task of lwIP will call `wifi_dns_found_callback`, and `hostByName` waits until the callback
has cleared `_dns_busy`. The two are in different tasks, so the machine below has a step for
every statement of theirs.

`_dns_busy` is set when `dns_gethostbyname` has returned, and from then on all is well. A
callback that comes before is forgotten: the flag is set behind it, nobody clears it any
more, and `hostByName` waits for ever (`HostByName.lost_of_early`). In every run in which the
flag is set first, the address that the callback brings is returned
(`HostByName.served_of_run`).
-/

namespace HostByName

/-- What `dns_gethostbyname` returns: `ERR_OK` with the address, `ERR_INPROGRESS`, or another
error. -/
inductive Answer where
  | ok (addr : UInt32)
  | inProgress
  | failed
  deriving DecidableEq, Repr

/-- Where `hostByName` is. -/
inductive CallerPc where
  | idle
  /-- At `aResult = 0`. -/
  | clear
  /-- At the call of `dns_gethostbyname`. -/
  | request
  /-- In it, with the request made. -/
  | asked (err : Answer)
  /-- At `_dns_busy = err == ERR_INPROGRESS`. -/
  | note (err : Answer)
  /-- At the test of the loop. -/
  | wait (err : Answer)
  /-- Behind the loop. -/
  | check (err : Answer)
  deriving DecidableEq, Repr

/-- Where `wifi_dns_found_callback` is, with the address it was called with; a null pointer is
`none`. -/
inductive CallbackPc where
  | idle
  | store (ipaddr : Option UInt32)
  /-- At `_dns_busy = false`. -/
  | wake (ipaddr : Option UInt32)
  deriving DecidableEq, Repr

/-- The two tasks and what they share. -/
structure State where
  dnsBusy : Bool
  aResult : UInt32
  caller : CallerPc
  callback : CallbackPc
  /-- The callback is still to be called. -/
  pending : Bool
  /-- The callback has run in this call of `hostByName`, with this address. -/
  heard : Option (Option UInt32)
  /-- What `hostByName` returned last. -/
  returned : ℤ
  deriving DecidableEq, Repr

/-- What can happen: `hostByName` is called or makes its next statement, at which
`dns_gethostbyname` may have this answer; the task of lwIP calls the callback, or that makes its
next statement. -/
inductive Event where
  | hostByName
  | caller (answer : Answer)
  | found (ipaddr : Option UInt32)
  | callback
  deriving DecidableEq, Repr

/-- The next statement of `hostByName`. -/
def stepCaller (answer : Answer) (s : State) : Option State :=
  match s.caller with
  | .idle => none
  | .clear => some { s with caller := .request, aResult := 0 }
  | .request => some { s with caller := .asked answer, pending := answer = .inProgress }
  | .asked err => some { s with caller := .note err }
  | .note err => some { s with caller := .wait err, dnsBusy := err = .inProgress }
  | .wait err => if s.dnsBusy then some s else some { s with caller := .check err }
  | .check .inProgress =>
    some { s with caller := .idle, returned := if s.aResult ≠ 0 then 1 else 0 }
  | .check (.ok addr) =>
    if addr ≠ 0 then some { s with caller := .idle, aResult := addr, returned := 1 }
    else some { s with caller := .idle, returned := 0 }
  | .check .failed => some { s with caller := .idle, returned := 0 }

/-- The next statement of `wifi_dns_found_callback`. -/
def stepCallback (s : State) : Option State :=
  match s.callback with
  | .idle => none
  | .store ipaddr => some { s with callback := .wake ipaddr, aResult := ipaddr.getD s.aResult }
  | .wake ipaddr => some { s with callback := .idle, dnsBusy := false, heard := some ipaddr }

def step (s : State) : Event → Option State
  | .hostByName =>
    if s.caller = .idle then some { s with caller := .clear, heard := none } else none
  | .caller answer => stepCaller answer s
  | .found ipaddr =>
    if s.pending = true then some { s with callback := .store ipaddr, pending := false }
      else none
  | .callback => stepCallback s

/-- The two tasks as a machine. -/
def machine : Machine State Event := ⟨step⟩

/-- Before the first call. -/
def init : State where
  dnsBusy := false
  aResult := 0
  caller := .idle
  callback := .idle
  pending := false
  heard := none
  returned := 0

/-- **The callback is not lost**: when it has run, `hostByName` does not wait any more, and
returns the address that it brought. -/
structure Served (s : State) : Prop where
  awake : s.heard ≠ none → ∀ err, s.caller = .wait err → s.dnsBusy = false
  returns : ∀ ip, s.heard = some (some ip) → ip ≠ 0 → ∀ answer, ∃ n t,
    machine.run s (List.replicate n (.caller answer)) = some t ∧
      t.caller = .idle ∧ t.returned = 1 ∧ t.aResult = ip

/-- `hostByName` has made a request and has not yet set the flag. -/
def CallerPc.early : CallerPc → Bool
  | .asked .inProgress | .note .inProgress => true
  | _ => false

/-- It is between its request and the end of the loop. -/
def CallerPc.asking : CallerPc → Bool
  | .asked .inProgress | .note .inProgress | .wait .inProgress => true
  | _ => false

/-- The callback has stored the address. -/
def CallbackPc.waking : CallbackPc → Bool
  | .wake _ => true
  | _ => false

/-- **In time**: the flag is not cleared before it is set. -/
def Timely (s : State) : Event → Prop
  | .callback => s.callback.waking = true → s.caller.early = false
  | _ => True

instance (s : State) : DecidablePred (Timely s)
  | .callback => inferInstanceAs (Decidable (_ = _ → _ = _))
  | .hostByName | .caller _ | .found _ => inferInstanceAs (Decidable True)

/-- **What holds at every statement**: a callback that is to come belongs to the request that is
waited for, with the flag set, and one that has run has left the flag cleared and its address
where it belongs. -/
structure Inv (s : State) : Prop where
  pending : s.pending = true → s.caller.asking = true ∧ s.callback = .idle ∧ s.heard = none
  callback : s.callback ≠ .idle → s.caller.asking = true ∧ s.pending = false ∧ s.heard = none
  stored : ∀ ip, s.callback = .wake (some ip) → s.aResult = ip
  busy : s.caller = .wait .inProgress → s.heard = none → s.dnsBusy = true
  heard : ∀ ipaddr, s.heard = some ipaddr →
    s.caller = .wait .inProgress ∧ s.dnsBusy = false ∨ s.caller = .check .inProgress ∨
      s.caller = .idle
  address : ∀ ip, s.heard = some (some ip) → ip ≠ 0 →
    s.aResult = ip ∧ (s.caller = .idle → s.returned = 1)

variable {s t : State}

/-- **Nothing is asked for**, and nothing was heard. -/
theorem inv_quiet (hpending : s.pending = false) (hcallback : s.callback = .idle)
    (hheard : s.heard = none) (hwait : s.caller ≠ .wait .inProgress) : Inv s where
  pending := fun h => absurd (hpending.symm.trans h) Bool.false_ne_true
  callback := fun h => absurd hcallback h
  stored := fun _ h => nomatch hcallback.symm.trans h
  busy := fun h => absurd h hwait
  heard := fun _ h => nomatch hheard.symm.trans h
  address := fun _ h => nomatch hheard.symm.trans h

/-- **Nothing is asked for any more**: the callback has run, and the flag was seen. -/
theorem inv_told (hpending : s.pending = false) (hcallback : s.callback = .idle)
    (hcaller : s.caller = .check .inProgress ∨ s.caller = .idle)
    (haddress : ∀ ip, s.heard = some (some ip) → ip ≠ 0 →
      s.aResult = ip ∧ (s.caller = .idle → s.returned = 1)) : Inv s where
  pending := fun h => absurd (hpending.symm.trans h) Bool.false_ne_true
  callback := fun h => absurd hcallback h
  stored := fun _ h => nomatch hcallback.symm.trans h
  busy := fun h => by rcases hcaller with heq | heq <;> cases heq.symm.trans h
  heard := fun _ _ => Or.inr hcaller
  address := haddress

/-- Nothing is asked for where `hostByName` has made no request. -/
theorem Inv.not_asking (h : Inv s) (hasking : s.caller.asking = false) :
    s.pending = false ∧ s.callback = .idle := by
  constructor
  · refine Bool.eq_false_iff.mpr fun hpending => ?_
    exact Bool.false_ne_true (hasking.symm.trans (h.pending hpending).1)
  · by_contra hcallback
    exact Bool.false_ne_true (hasking.symm.trans (h.callback hcallback).1)

/-- Nothing was heard before the flag was set. -/
theorem Inv.not_heard (h : Inv s) (hcaller : s.caller ≠ .wait .inProgress ∧
    s.caller ≠ .check .inProgress ∧ s.caller ≠ .idle) : s.heard = none := by
  obtain ⟨hwait, hcheck, hidle⟩ := hcaller
  cases hheard : s.heard with
  | none => rfl
  | some ipaddr =>
    obtain ⟨hpc, -⟩ | hpc | hpc := h.heard ipaddr hheard
    · exact absurd hpc hwait
    · exact absurd hpc hcheck
    · exact absurd hpc hidle

/-- **A statement that has no part in it**, in front of the loop. -/
theorem Inv.advance (h : Inv s) (hasking : t.caller.asking = s.caller.asking)
    (hpending : t.pending = s.pending) (hcallback : t.callback = s.callback)
    (hresult : t.aResult = s.aResult) (hheard : s.heard = none) (hheard' : t.heard = s.heard)
    (hbusy : t.caller = .wait .inProgress → t.dnsBusy = true) : Inv t where
  pending := by
    rw [hpending, hasking, hcallback, hheard']
    exact h.pending
  callback := by
    rw [hpending, hasking, hcallback, hheard']
    exact h.callback
  stored := by
    rw [hcallback, hresult]
    exact h.stored
  busy := fun hpc _ => hbusy hpc
  heard := fun _ ht => nomatch hheard.symm.trans (hheard'.symm.trans ht)
  address := fun _ ht => nomatch hheard.symm.trans (hheard'.symm.trans ht)

/-- **The statements of `hostByName`** keep it. -/
theorem Inv.stepCaller {answer : Answer} (h : Inv s) (hstep : stepCaller answer s = some t) :
    Inv t := by
  unfold HostByName.stepCaller at hstep
  cases hpc : s.caller with
  | idle =>
    rw [hpc] at hstep
    cases hstep
  | clear =>
    obtain ⟨hpending, hcallback⟩ := h.not_asking (by rw [hpc]; rfl)
    have hheard := h.not_heard (by simp [hpc])
    rw [hpc] at hstep
    cases hstep
    exact inv_quiet hpending hcallback hheard (fun hwait => nomatch hwait)
  | request =>
    obtain ⟨hpending, hcallback⟩ := h.not_asking (by rw [hpc]; rfl)
    have hheard := h.not_heard (by simp [hpc])
    rw [hpc] at hstep
    cases hstep
    exact {
      pending := fun hanswer => ⟨by rw [of_decide_eq_true hanswer]; rfl, hcallback, hheard⟩
      callback := fun hnot => absurd hcallback hnot
      stored := fun _ hw => nomatch hcallback.symm.trans hw
      busy := fun hwait => nomatch hwait
      heard := fun _ ht => nomatch hheard.symm.trans ht
      address := fun _ ht => nomatch hheard.symm.trans ht }
  | asked err =>
    have hheard := h.not_heard (by simp [hpc])
    rw [hpc] at hstep
    cases hstep
    refine h.advance ?_ rfl rfl rfl hheard rfl (fun hwait => nomatch hwait)
    rw [hpc]
    cases err <;> rfl
  | note err =>
    have hheard := h.not_heard (by simp [hpc])
    rw [hpc] at hstep
    cases hstep
    refine h.advance ?_ rfl rfl rfl hheard rfl (fun hwait => ?_)
    · rw [hpc]
      cases err <;> rfl
    · cases hwait
      rfl
  | wait err =>
    rw [hpc] at hstep
    dsimp only at hstep
    split at hstep
    · cases hstep
      exact h
    · rename_i hbusy
      cases hstep
      cases err with
      | ok addr | failed =>
        obtain ⟨hpending, hcallback⟩ := h.not_asking (by rw [hpc]; rfl)
        have hheard := h.not_heard (by simp [hpc])
        exact inv_quiet hpending hcallback hheard (fun hwait => nomatch hwait)
      | inProgress =>
        -- the flag was cleared, so the callback has run
        have hheard : s.heard ≠ none := fun hnone => hbusy (h.busy hpc hnone)
        have hpending : s.pending = false := Bool.eq_false_iff.mpr fun hpending =>
          hheard (h.pending hpending).2.2
        have hcallback : s.callback = .idle := by
          by_contra hcallback
          exact hheard (h.callback hcallback).2.2
        exact inv_told hpending hcallback (Or.inl rfl) fun ip hip hne =>
          ⟨(h.address ip hip hne).1, fun hidle => nomatch hidle⟩
  | check err =>
    obtain ⟨hpending, hcallback⟩ := h.not_asking (by rw [hpc]; rfl)
    rw [hpc] at hstep
    cases err with
    | ok addr =>
      have hheard := h.not_heard (by simp [hpc])
      dsimp only at hstep
      split at hstep <;>
      · cases hstep
        exact inv_quiet hpending hcallback hheard (fun hwait => nomatch hwait)
    | failed =>
      have hheard := h.not_heard (by simp [hpc])
      cases hstep
      exact inv_quiet hpending hcallback hheard (fun hwait => nomatch hwait)
    | inProgress =>
      cases hstep
      refine inv_told hpending hcallback (Or.inr rfl) fun ip hip hne => ?_
      have haddress := (h.address ip hip hne).1
      exact ⟨haddress, fun _ => if_pos (haddress ▸ hne)⟩

/-- **Those of the callback** do in time. -/
theorem Inv.stepCallback (h : Inv s) (htimely : Timely s .callback)
    (hstep : stepCallback s = some t) : Inv t := by
  unfold HostByName.stepCallback at hstep
  cases hpc : s.callback with
  | idle =>
    rw [hpc] at hstep
    cases hstep
  | store ipaddr =>
    obtain ⟨hasking, hpending, hheard⟩ := h.callback (by simp [hpc])
    rw [hpc] at hstep
    cases hstep
    exact {
      pending := fun ht => absurd (hpending.symm.trans ht) Bool.false_ne_true
      callback := fun _ => ⟨hasking, hpending, hheard⟩
      stored := fun ip hip => by
        cases hip
        rfl
      busy := h.busy
      heard := fun _ ht => nomatch hheard.symm.trans ht
      address := fun _ ht => nomatch hheard.symm.trans ht }
  | wake ipaddr =>
    obtain ⟨hasking, hpending, hheard⟩ := h.callback (by simp [hpc])
    have hearly := htimely (by rw [hpc]; rfl)
    have hwait : s.caller = .wait .inProgress := by
      cases hcaller : s.caller with
      | idle | clear | request | check err =>
        rw [hcaller] at hasking
        cases hasking
      | asked err | note err =>
        rw [hcaller] at hasking hearly
        cases err with
        | inProgress => cases hearly
        | ok addr | failed => cases hasking
      | wait err =>
        rw [hcaller] at hasking
        cases err with
        | inProgress => rfl
        | ok addr | failed => cases hasking
    rw [hpc] at hstep
    cases hstep
    exact {
      pending := fun ht => absurd (hpending.symm.trans ht) Bool.false_ne_true
      callback := fun hnot => absurd rfl hnot
      stored := fun _ hw => nomatch hw
      busy := fun _ hnone => nomatch hnone
      heard := fun _ _ => Or.inl ⟨hwait, rfl⟩
      address := fun ip hip _ => by
        cases hip
        exact ⟨h.stored ip hpc, fun hidle => nomatch hwait.symm.trans hidle⟩ }

/-- **Every step keeps it** that is in time. -/
theorem Inv.step {e : Event} (h : Inv s) (htimely : Timely s e)
    (hstep : machine.step s e = some t) : Inv t := by
  cases e with
  | hostByName =>
    obtain ⟨hidle, rfl⟩ := Machine.of_guard hstep
    obtain ⟨hpending, hcallback⟩ := h.not_asking (by rw [hidle]; rfl)
    exact inv_quiet hpending hcallback rfl (fun hwait => nomatch hwait)
  | caller answer => exact h.stepCaller hstep
  | callback => exact h.stepCallback htimely hstep
  | found ipaddr =>
    obtain ⟨hpending, rfl⟩ := Machine.of_guard hstep
    obtain ⟨hasking, -, hheard⟩ := h.pending hpending
    exact {
      pending := fun ht => nomatch ht
      callback := fun _ => ⟨hasking, rfl, hheard⟩
      stored := fun _ hw => nomatch hw
      busy := h.busy
      heard := fun _ ht => nomatch hheard.symm.trans ht
      address := fun _ ht => nomatch hheard.symm.trans ht }

/-! ## What was heard -/

/-- The last statement returns an address that was found. -/
theorem Inv.served (h : Inv s) : Served s where
  awake := by
    intro hheard err hwait
    obtain ⟨ipaddr, hipaddr⟩ := Option.ne_none_iff_exists'.mp hheard
    obtain ⟨-, hbusy⟩ | hpc | hpc := h.heard ipaddr hipaddr
    · exact hbusy
    · exact nomatch hwait.symm.trans hpc
    · exact nomatch hwait.symm.trans hpc
  returns := by
    intro ip hip hne answer
    obtain ⟨haddress, hreturned⟩ := h.address ip hip hne
    have hcases := h.heard _ hip
    obtain ⟨dnsBusy, aResult, caller, callback, pending, heard, returned⟩ := s
    cases haddress
    obtain ⟨hwait, hbusy⟩ | hcheck | hidle := hcases
    · cases hwait
      cases hbusy
      exact ⟨2, _, rfl, rfl, if_pos hne, rfl⟩
    · cases hcheck
      exact ⟨1, _, rfl, rfl, if_pos hne, rfl⟩
    · exact ⟨0, _, rfl, hidle, hreturned hidle, rfl⟩

/-- **No callback is lost**, in every run that is in time, whatever is asked for and
however the statements of the two follow each other. -/
theorem served_of_run {es : List Event} (htimely : machine.Along Timely init es)
    (hrun : machine.run init es = some s) : Served s :=
  (Machine.invariant_of_along (fun _ _ _ hI hP hstep => hI.step hP hstep)
    (inv_quiet rfl rfl rfl (by decide)) htimely hrun).served

/-! ## A callback that comes too early -/

/-- The callback has run, and the flag is set or will be. -/
structure Lost (s : State) : Prop where
  pending : s.pending = false
  callback : s.callback = .idle
  heard : s.heard ≠ none
  waits : s.caller.early = true ∨ s.caller = .wait .inProgress ∧ s.dnsBusy = true

/-- **Nothing takes it back.** -/
theorem Lost.step {e : Event} (h : Lost s) (hstep : machine.step s e = some t) : Lost t := by
  obtain ⟨dnsBusy, aResult, caller, callback, pending, heard, returned⟩ := s
  obtain ⟨hpending, hcallback, hheard, hwaits⟩ := h
  cases hpending
  cases hcallback
  cases e with
  | hostByName =>
    obtain ⟨hidle, -⟩ := Machine.of_guard hstep
    cases hidle
    obtain hearly | ⟨hwait, -⟩ := hwaits
    · cases hearly
    · cases hwait
  | found ipaddr | callback => cases hstep
  | caller answer =>
    obtain hearly | ⟨hwait, hbusy⟩ := hwaits
    · cases caller with
      | asked err =>
        cases hstep
        refine ⟨rfl, rfl, hheard, Or.inl ?_⟩
        cases err with
        | inProgress => rfl
        | ok addr | failed => cases hearly
      | note err =>
        cases hstep
        refine ⟨rfl, rfl, hheard, Or.inr ?_⟩
        cases err with
        | inProgress => exact ⟨rfl, rfl⟩
        | ok addr | failed => cases hearly
      | idle | clear | request | wait err | check err => cases hearly
    · cases hwait
      cases hbusy
      cases hstep
      exact ⟨rfl, rfl, hheard, Or.inr ⟨rfl, rfl⟩⟩

/-- **A callback that clears the flag too early is lost**: whatever happens then, `hostByName`
does not return, and when it has come to the loop it waits there. -/
theorem lost_of_early {es : List Event} {u : State} (h : Inv s)
    (hwaking : s.callback.waking = true)
    (hearly : s.caller.early = true) (hstep : machine.step s .callback = some t)
    (hrun : machine.run t es = some u) :
    u.caller ≠ .idle ∧ (∀ err, u.caller = .wait err → ¬ Served u) := by
  have hlost : Lost t := by
    cases hpc : s.callback with
    | idle | store ipaddr =>
      rw [hpc] at hwaking
      cases hwaking
    | wake ipaddr =>
      obtain ⟨-, hpending, -⟩ := h.callback (by simp [hpc])
      unfold machine HostByName.step HostByName.stepCallback at hstep
      dsimp only at hstep
      rw [hpc] at hstep
      cases hstep
      exact ⟨hpending, rfl, Option.some_ne_none ipaddr, Or.inl hearly⟩
  have hlast := Machine.invariant_of_run (fun _ _ _ hI hstep => hI.step hstep) hlost hrun
  refine ⟨fun hidle => ?_, fun err hwait hserved => ?_⟩
  · have hwaits := hlast.waits
    rw [hidle] at hwaits
    obtain hearly | ⟨hwait, -⟩ := hwaits
    · cases hearly
    · cases hwait
  · have hwaits := hlast.waits
    have hbusy := hserved.awake hlast.heard err hwait
    rw [hwait, hbusy] at hwaits
    obtain hearly | ⟨-, hbusy⟩ := hwaits
    · cases hearly
    · cases hbusy

/-- The callback runs before `dns_gethostbyname` returns. -/
def earlyRun : List Event :=
  [.hostByName, .caller .failed, .caller .inProgress, .found (some 0x0100A8C0), .callback,
    .callback, .caller .failed, .caller .failed]

theorem not_served_of_every_run :
    ¬ ∀ (es : List Event) (s : State), machine.run init es = some s → Served s := fun h =>
  Bool.noConfusion ((h earlyRun _ rfl).awake (Option.some_ne_none _) .inProgress rfl)

/-- The callback stores its address while `dns_gethostbyname` returns, and clears the flag when
it is set. -/
def timelyRun : List Event :=
  [.hostByName, .caller .failed, .caller .inProgress, .found (some 0x0100A8C0), .callback,
    .caller .failed, .caller .failed, .callback]

theorem served_of_timelyRun : ∃ s, machine.run init timelyRun = some s ∧ Served s :=
  ⟨_, rfl, served_of_run (by decide : machine.Along Timely init timelyRun) rfl⟩

end HostByName
