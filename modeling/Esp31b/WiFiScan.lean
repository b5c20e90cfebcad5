import Esp31b.Machine
import Mathlib.Data.Int.Notation
import Mathlib.Data.Nat.Notation

/-!
# Scanning for networks

`scanNetworks` asks the SDK for a scan, and when it has agreed notes that one was started;
`_scanDone` is called by the SDK when it is finished, and notes that. The two are in
different tasks, so the machine below has a step for every statement of theirs.

`_scanStarted` is what a second scan is refused for. Its two writers are in the order of
the scan unless `_scanDone` comes to its write before `scanNetworks` does: then the note
that a scan was started is made when it is over, and nothing takes it back
(`WiFiScan.not_free_of_early`). In every run without that, a finished scan is seen to be
finished, and the next one can be started (`WiFiScan.free_of_run`).

The count of the networks goes through an `int8_t`, in which 255 of them are the code for
a running scan. The runs are restricted for that, too.
-/

namespace WiFiScan

/-- Where the application is. The statements of `scanDelete` know whether they are
called by `scanNetworks`. -/
inductive CallerPc where
  | idle
  /-- At the test of `_scanStarted`. -/
  | entered (async : Bool)
  | setAsync (async : Bool)
  /-- Station mode is enabled, and a connection that hangs is dropped. -/
  | enableSTA
  /-- At the test of `_scanResult`. -/
  | delete (scanning : Bool)
  | clearResult (scanning : Bool)
  | clearCount (scanning : Bool)
  | clearComplete (scanning : Bool)
  /-- At `wifi_station_scan`. -/
  | scan
  /-- The SDK has agreed; at `_scanComplete = false`. -/
  | accepted
  /-- At `_scanStarted = true`. -/
  | start
  | leave
  deriving DecidableEq, Repr

/-- Where `_scanDone` is, with what it is told: no list if the status is not `OK`. -/
inductive CallbackPc (α : Type) where
  | idle
  | count (found : Option (List α))
  | result (found : Option (List α))
  /-- At `_scanStarted = false`. -/
  | finish
  /-- At `_scanComplete = true`. -/
  | complete
  deriving DecidableEq, Repr

/-- The scanner, the statements its callers are at, and the scans that `_scanDone` is still
to be called for. -/
structure State (α : Type) where
  scanAsync : Bool
  scanStarted : Bool
  scanComplete : Bool
  scanCount : ℕ
  /-- The copied list, empty for a null pointer. -/
  scanResult : List α
  caller : CallerPc
  callback : CallbackPc α
  pending : ℕ
  /-- What `scanNetworks` returned last. -/
  returned : ℤ
  deriving DecidableEq, Repr

/-- What can happen: the application makes a call or its next statement, at which the SDK may
agree to a scan; the SDK calls `_scanDone`, or that makes its next statement. -/
inductive Event (α : Type) where
  | scanNetworks (async : Bool)
  | scanDelete
  | caller (agreed : Bool)
  | scanDone (found : Option (List α))
  | callback
  deriving DecidableEq, Repr

variable {α : Type}

/-- A value returned as `int8_t`. -/
def int8 (n : ℕ) : ℤ := Int.bmod n 256

/-- `scanComplete`, with `WIFI_SCAN_RUNNING` and `WIFI_SCAN_FAILED`. -/
def State.complete (s : State α) : ℤ :=
  if s.scanStarted then -1 else if s.scanComplete then int8 s.scanCount else -2

/-- The next statement of the application. -/
def stepCaller (agreed : Bool) (s : State α) : Option (State α) :=
  match s.caller with
  | .idle => none
  | .entered async =>
    if s.scanStarted then some { s with caller := .idle, returned := -1 }
    else some { s with caller := .setAsync async }
  | .setAsync async => some { s with caller := .enableSTA, scanAsync := async }
  | .enableSTA => some { s with caller := .delete true }
  | .delete scanning =>
    if s.scanResult = [] then some { s with caller := .clearComplete scanning }
    else some { s with caller := .clearResult scanning }
  | .clearResult scanning => some { s with caller := .clearCount scanning, scanResult := [] }
  | .clearCount scanning => some { s with caller := .clearComplete scanning, scanCount := 0 }
  | .clearComplete scanning =>
    some { s with caller := if scanning then .scan else .idle, scanComplete := false }
  | .scan =>
    if agreed then some { s with caller := .accepted, pending := s.pending + 1 }
    else some { s with caller := .idle, returned := -2 }
  | .accepted => some { s with caller := .start, scanComplete := false }
  | .start => some { s with caller := .leave, scanStarted := true }
  | .leave =>
    some { s with caller := .idle, returned := if s.scanAsync then -1 else int8 s.scanCount }

/-- The next statement of `_scanDone`. -/
def stepCallback (s : State α) : Option (State α) :=
  match s.callback with
  | .idle => none
  | .count found =>
    some { s with callback := .result found, scanCount := (found.getD []).length }
  | .result found => some { s with callback := .finish, scanResult := found.getD [] }
  | .finish => some { s with callback := .complete, scanStarted := false }
  | .complete => some { s with callback := .idle, scanComplete := true }

def step (s : State α) : Event α → Option (State α)
  | .scanNetworks async =>
    if s.caller = .idle then some { s with caller := .entered async } else none
  | .scanDelete => if s.caller = .idle then some { s with caller := .delete false } else none
  | .caller agreed => stepCaller agreed s
  | .scanDone found =>
    match s.callback with
    | .idle =>
      if 0 < s.pending then some { s with callback := .count found, pending := s.pending - 1 }
      else none
    | _ => none
  | .callback => stepCallback s

/-- The scanner as a machine. -/
def machine : Machine (State α) (Event α) := ⟨step⟩

/-- Before the first scan. -/
def init : State α where
  scanAsync := false
  scanStarted := false
  scanComplete := false
  scanCount := 0
  scanResult := []
  caller := .idle
  callback := .idle
  pending := 0
  returned := 0

/-- **The scans are over**: `_scanDone` has run for every one, and no call is running. -/
def Done (s : State α) : Prop := s.caller = .idle ∧ s.callback = .idle ∧ s.pending = 0

/-- **A scan is not running**: it is not said to be, and a call of `scanNetworks` asks the
SDK for the next one. -/
def Free (s : State α) : Prop :=
  s.complete ≠ -1 ∧ ∀ async, ∃ n t,
    machine.run s (.scanNetworks async :: List.replicate n (.caller true)) = some t ∧
      t.caller = .idle ∧ t.pending = s.pending + 1

/-- The SDK has agreed to the scan that `scanNetworks` has not yet noted. -/
def CallerPc.starting : CallerPc → Bool
  | .accepted | .start => true
  | _ => false

/-- `scanNetworks` has found that no scan is running. -/
def CallerPc.ahead : CallerPc → Bool
  | .setAsync _ | .enableSTA | .delete true | .clearResult true | .clearCount true
  | .clearComplete true | .scan | .accepted | .start => true
  | _ => false

/-- `_scanDone` is at its note that the scan is over, or in front of it. -/
def CallbackPc.busy : CallbackPc α → Bool
  | .count _ | .result _ | .finish => true
  | _ => false

/-- **In time**: a scan is not noted to be over before it is noted to be started, and the number
of its networks is not the code for a running scan. -/
def Timely (s : State α) : Event α → Prop
  | .callback => s.callback = .finish → s.caller.starting = false
  | .scanDone found => (found.getD []).length % 256 ≠ 255
  | _ => True

/-- The scans that are not noted to be over. -/
def State.owed (s : State α) : ℕ := s.pending + if s.callback.busy then 1 else 0

instance [DecidableEq α] (s : State α) : DecidablePred (Timely s)
  | .callback => inferInstanceAs (Decidable (_ = _ → _ = _))
  | .scanDone found => inferInstanceAs (Decidable ((found.getD []).length % 256 ≠ 255))
  | .scanNetworks _ | .scanDelete | .caller _ => inferInstanceAs (Decidable True)

/-- **What holds at every statement**: there is a scan that is not over if and only if one is
noted, or about to be. -/
structure Inv (s : State α) : Prop where
  owed : s.owed = if s.scanStarted || s.caller.starting then 1 else 0
  fresh : s.caller.ahead = true → s.scanStarted = false
  scanCount : s.scanCount % 256 ≠ 255
  found : ∀ found, s.callback = .count found → (found.getD []).length % 256 ≠ 255

variable {s t : State α}

theorem int8_ne {n : ℕ} (h : n % 256 ≠ 255) : int8 n ≠ -1 := by
  unfold int8
  rw [Int.bmod_def]
  omega

theorem inv_init : Inv (init : State α) where
  owed := rfl
  fresh := fun h => absurd (show false = true from h) (by decide)
  scanCount := show 0 % 256 ≠ 255 by decide
  found := fun found h => nomatch h

/-- **A statement that has no part in it**: the scans and the notes are as before. -/
theorem Inv.move (h : Inv s) (hcallback : t.callback = s.callback)
    (hpending : t.pending = s.pending)
    (hstarted : t.scanStarted = s.scanStarted)
    (hstarting : t.caller.starting = s.caller.starting)
    (hahead : t.caller.ahead = true → s.scanStarted = false)
    (hcount : t.scanCount = s.scanCount ∨ t.scanCount = 0) : Inv t where
  owed := by
    have howed := h.owed
    unfold State.owed at howed ⊢
    rw [hcallback, hpending, hstarted, hstarting, howed]
  fresh := fun ht => hstarted.trans (hahead ht)
  scanCount := by
    rcases hcount with heq | heq
    · exact heq ▸ h.scanCount
    · rw [heq]
      decide
  found := fun found ht => h.found found (hcallback ▸ ht)

/-- **The application's statements** keep it. -/
theorem Inv.stepCaller {agreed : Bool} (h : Inv s) (hstep : stepCaller agreed s = some t) :
    Inv t := by
  have hfresh := h.fresh
  have howed := h.owed
  unfold WiFiScan.stepCaller at hstep
  cases hpc : s.caller with
  | idle =>
    rw [hpc] at hstep
    cases hstep
  | entered async =>
    rw [hpc] at hstep
    dsimp only at hstep
    split at hstep
    · cases hstep
      exact h.move rfl rfl rfl (hpc ▸ rfl) (fun ht => nomatch ht) (Or.inl rfl)
    · rename_i hnot
      cases hstep
      exact h.move rfl rfl rfl (hpc ▸ rfl) (fun _ => Bool.eq_false_iff.mpr hnot) (Or.inl rfl)
  | setAsync async | enableSTA =>
    rw [hpc] at hstep hfresh
    cases hstep
    exact h.move rfl rfl rfl (hpc ▸ rfl) (fun _ => hfresh rfl) (Or.inl rfl)
  | delete scanning =>
    rw [hpc] at hstep hfresh
    dsimp only at hstep
    split at hstep <;>
    · cases hstep
      refine h.move rfl rfl rfl (hpc ▸ rfl) (fun ht => ?_) (Or.inl rfl)
      cases scanning with
      | true => exact hfresh rfl
      | false => cases ht
  | clearResult scanning =>
    rw [hpc] at hstep hfresh
    cases hstep
    refine h.move rfl rfl rfl (hpc ▸ rfl) (fun ht => ?_) (Or.inl rfl)
    cases scanning with
    | true => exact hfresh rfl
    | false => cases ht
  | clearCount scanning =>
    rw [hpc] at hstep hfresh
    cases hstep
    refine h.move rfl rfl rfl (hpc ▸ rfl) (fun ht => ?_) (Or.inr rfl)
    cases scanning with
    | true => exact hfresh rfl
    | false => cases ht
  | clearComplete scanning =>
    rw [hpc] at hstep hfresh
    cases hstep
    cases scanning with
    | true => exact h.move rfl rfl rfl (hpc ▸ rfl) (fun _ => hfresh rfl) (Or.inl rfl)
    | false => exact h.move rfl rfl rfl (hpc ▸ rfl) (fun ht => nomatch ht) (Or.inl rfl)
  | scan =>
    rw [hpc] at hstep hfresh howed
    dsimp only at hstep
    split at hstep
    · -- There is a scan to be noted now.
      cases hstep
      rw [hfresh rfl] at howed
      refine ⟨?_, fun _ => hfresh rfl, h.scanCount, h.found⟩
      have hnone : s.pending + (if s.callback.busy = true then 1 else 0) = 0 := howed
      show s.pending + 1 + (if s.callback.busy = true then 1 else 0) =
        if (s.scanStarted || true) = true then 1 else 0
      rw [Bool.or_true, if_pos rfl]
      omega
    · cases hstep
      exact h.move rfl rfl rfl (hpc ▸ rfl) (fun ht => nomatch ht) (Or.inl rfl)
  | accepted =>
    rw [hpc] at hstep hfresh
    cases hstep
    exact h.move rfl rfl rfl (hpc ▸ rfl) (fun _ => hfresh rfl) (Or.inl rfl)
  | start =>
    rw [hpc] at hstep howed
    cases hstep
    have hone : s.owed = 1 := howed.trans (if_pos (Bool.or_true _))
    exact ⟨hone, (fun ht => nomatch ht), h.scanCount, h.found⟩
  | leave =>
    rw [hpc] at hstep
    cases hstep
    exact h.move rfl rfl rfl (hpc ▸ rfl) (fun ht => nomatch ht) (Or.inl rfl)

/-- **Those of `_scanDone`** do in time. -/
theorem Inv.stepCallback (h : Inv s) (htimely : Timely s .callback)
    (hstep : stepCallback s = some t) :
    Inv t := by
  have howed := h.owed
  unfold State.owed at howed
  unfold WiFiScan.stepCallback at hstep
  cases hpc : s.callback with
  | idle =>
    rw [hpc] at hstep
    cases hstep
  | count found =>
    rw [hpc] at hstep howed
    cases hstep
    exact ⟨howed, h.fresh, h.found found hpc, fun _ ht => nomatch ht⟩
  | result found =>
    rw [hpc] at hstep howed
    cases hstep
    exact ⟨howed, h.fresh, h.scanCount, fun _ ht => nomatch ht⟩
  | finish =>
    rw [hpc] at hstep howed
    cases hstep
    have hearly := htimely hpc
    rw [hearly, Bool.or_false] at howed
    refine ⟨?_, fun _ => rfl, h.scanCount, fun _ ht => nomatch ht⟩
    unfold State.owed
    show s.pending + 0 = if (false || s.caller.starting) = true then 1 else 0
    rw [hearly]
    have hpending : s.pending + 1 = if s.scanStarted = true then 1 else 0 := howed
    split at hpending
    · exact Nat.succ.inj hpending
    · cases hpending
  | complete =>
    rw [hpc] at hstep howed
    cases hstep
    exact ⟨howed, h.fresh, h.scanCount, fun _ ht => nomatch ht⟩

/-- **Every step keeps it** that is in time. -/
theorem Inv.step {e : Event α} (h : Inv s) (htimely : Timely s e)
    (hstep : machine.step s e = some t) :
    Inv t := by
  cases e with
  | scanNetworks async =>
    obtain ⟨hpc, rfl⟩ := Machine.of_guard hstep
    exact h.move rfl rfl rfl (hpc ▸ rfl) (fun ht => nomatch ht) (Or.inl rfl)
  | scanDelete =>
    obtain ⟨hpc, rfl⟩ := Machine.of_guard hstep
    exact h.move rfl rfl rfl (hpc ▸ rfl) (fun ht => nomatch ht) (Or.inl rfl)
  | caller agreed => exact h.stepCaller hstep
  | callback => exact h.stepCallback htimely hstep
  | scanDone found =>
    have howed := h.owed
    unfold State.owed at howed
    unfold machine WiFiScan.step at hstep
    dsimp only at hstep
    split at hstep
    · rename_i hpc
      obtain ⟨hpending, rfl⟩ := Machine.of_guard hstep
      rw [hpc] at howed
      refine ⟨?_, h.fresh, h.scanCount, fun f ht => ?_⟩
      · rw [← howed]
        show s.pending - 1 + 1 = s.pending + 0
        omega
      · cases ht
        exact htimely
    · cases hstep

/-! ## A finished scan -/

/-- **Where no scan is noted, the next one is started** by a call, and its statements alone. -/
theorem exists_scan (hidle : s.caller = .idle) (hstarted : s.scanStarted = false)
    (async : Bool) :
    ∃ n t, machine.run s (.scanNetworks async :: List.replicate n (.caller true)) = some t ∧
      t.caller = .idle ∧ t.pending = s.pending + 1 := by
  obtain ⟨_, scanStarted, _, _, scanResult, caller, _, _, _⟩ := s
  cases hidle
  cases hstarted
  cases scanResult with
  | nil => exact ⟨9, _, rfl, rfl, rfl⟩
  | cons _ _ => exact ⟨11, _, rfl, rfl, rfl⟩

theorem Inv.free (h : Inv s) (hdone : Done s) : Free s := by
  obtain ⟨hcaller, hcallback, hpending⟩ := hdone
  have howed := h.owed
  unfold State.owed at howed
  rw [hcaller, hcallback, hpending] at howed
  have hstarted : s.scanStarted = false := by
    cases hs : s.scanStarted with
    | false => rfl
    | true =>
      rw [hs] at howed
      cases howed
  refine ⟨?_, exists_scan hcaller hstarted⟩
  unfold State.complete
  rw [hstarted, if_neg Bool.false_ne_true]
  split
  · exact int8_ne h.scanCount
  · decide

/-- **A finished scan is not running**, in every run that is in time: whatever the calls and
their order, when no scan is left to finish and no call to return. -/
theorem free_of_run {es : List (Event α)} (htimely : machine.Along Timely init es)
    (hrun : machine.run init es = some s) (hdone : Done s) : Free s :=
  (Machine.invariant_of_along (fun _ _ _ hI hP hstep => hI.step hP hstep) inv_init htimely
    hrun).free hdone

/-! ## A scan that is over too early -/

/-- A scan is noted, or about to be, and there is none to be over. -/
structure Stuck (s : State α) : Prop where
  owed : s.owed = 0
  noted : s.scanStarted = true ∧ s.caller.ahead = false ∨ s.caller.starting = true

theorem Stuck.stepCaller {agreed : Bool} (h : Stuck s) (hstep : stepCaller agreed s = some t) :
    Stuck t := by
  obtain ⟨howed, hnoted⟩ := h
  unfold WiFiScan.stepCaller at hstep
  cases hpc : s.caller with
  | idle =>
    rw [hpc] at hstep
    cases hstep
  | entered async =>
    rw [hpc] at hstep hnoted
    obtain ⟨hstarted, -⟩ := hnoted.resolve_right Bool.false_ne_true
    dsimp only at hstep
    rw [if_pos hstarted] at hstep
    cases hstep
    exact ⟨howed, Or.inl ⟨hstarted, rfl⟩⟩
  | delete scanning =>
    rw [hpc] at hstep hnoted
    obtain ⟨hstarted, hbehind⟩ := hnoted.resolve_right (by cases scanning <;> decide)
    cases scanning with
    | true => cases hbehind
    | false =>
      dsimp only at hstep
      split at hstep <;>
      · cases hstep
        exact ⟨howed, Or.inl ⟨hstarted, rfl⟩⟩
  | clearResult scanning | clearCount scanning | clearComplete scanning =>
    rw [hpc] at hstep hnoted
    obtain ⟨hstarted, hbehind⟩ := hnoted.resolve_right (by cases scanning <;> decide)
    cases scanning with
    | true => cases hbehind
    | false =>
      cases hstep
      exact ⟨howed, Or.inl ⟨hstarted, rfl⟩⟩
  | accepted =>
    rw [hpc] at hstep
    cases hstep
    exact ⟨howed, Or.inr rfl⟩
  | start =>
    rw [hpc] at hstep
    cases hstep
    exact ⟨howed, Or.inl ⟨rfl, rfl⟩⟩
  | leave =>
    rw [hpc] at hstep hnoted
    obtain ⟨hstarted, -⟩ := hnoted.resolve_right Bool.false_ne_true
    cases hstep
    exact ⟨howed, Or.inl ⟨hstarted, rfl⟩⟩
  | setAsync async | enableSTA | scan =>
    rw [hpc] at hnoted
    obtain ⟨-, hbehind⟩ := hnoted.resolve_right Bool.false_ne_true
    cases hbehind

/-- **Nothing takes it back.** -/
theorem Stuck.step {e : Event α} (h : Stuck s) (hstep : machine.step s e = some t) :
    Stuck t := by
  have howed := h.owed
  unfold State.owed at howed
  cases e with
  | scanNetworks async | scanDelete =>
    obtain ⟨hidle, rfl⟩ := Machine.of_guard hstep
    have hnoted := h.noted
    rw [hidle] at hnoted
    exact ⟨h.owed, Or.inl ⟨(hnoted.resolve_right Bool.false_ne_true).1, rfl⟩⟩
  | caller agreed => exact h.stepCaller hstep
  | callback =>
    unfold machine WiFiScan.step WiFiScan.stepCallback at hstep
    dsimp only at hstep
    cases hpc : s.callback with
    | idle =>
      rw [hpc] at hstep
      cases hstep
    | count found | result found | finish =>
      rw [hpc] at howed
      cases howed
    | complete =>
      rw [hpc] at hstep howed
      cases hstep
      exact ⟨howed, h.noted⟩
  | scanDone found =>
    unfold machine WiFiScan.step at hstep
    dsimp only at hstep
    split at hstep
    · obtain ⟨hpending, -⟩ := Machine.of_guard hstep
      omega
    · cases hstep

/-- **A scan that is over too early runs for ever**: no call and no callback changes what
`scanComplete` says of it. -/
theorem not_free_of_early {es : List (Event α)} {u : State α} (h : Inv s)
    (hfinish : s.callback = .finish) (hearly : s.caller.starting = true)
    (hstep : machine.step s .callback = some t) (hrun : machine.run t es = some u)
    (hdone : Done u) :
    u.complete = -1 ∧ ¬ Free u := by
  have hstuck : Stuck t := by
    have howed := h.owed
    unfold State.owed at howed
    rw [hfinish, hearly, Bool.or_true] at howed
    unfold machine WiFiScan.step WiFiScan.stepCallback at hstep
    dsimp only at hstep
    rw [hfinish] at hstep
    cases hstep
    exact ⟨Nat.succ.inj howed, Or.inr hearly⟩
  have hnoted :=
    (Machine.invariant_of_run (fun _ _ _ hI hstep => hI.step hstep) hstuck hrun).noted
  rw [hdone.1] at hnoted
  have hrunning : u.complete = -1 := if_pos (hnoted.resolve_right Bool.false_ne_true).1
  exact ⟨hrunning, fun hfree => hfree.1 hrunning⟩

/-- `scanNetworks` comes to its next statement when `_scanDone` has returned. -/
def earlyRun : List (Event Unit) :=
  .scanNetworks true :: List.replicate 6 (.caller true) ++
    .scanDone (some [()]) :: List.replicate 4 .callback ++ List.replicate 3 (.caller true)

theorem not_free_of_every_run :
    ¬ ∀ (es : List (Event Unit)) (s : State Unit), machine.run init es = some s →
      Done s → Free s :=
  fun h => (h earlyRun _ rfl ⟨rfl, rfl, rfl⟩).1 rfl

/-- `_scanDone` comes when `scanNetworks` has returned. -/
def lateRun : List (Event Unit) :=
  .scanNetworks true :: List.replicate 9 (.caller true) ++
    .scanDone (some [()]) :: List.replicate 4 .callback

theorem free_of_lateRun : ∃ s, machine.run init lateRun = some s ∧ Free s :=
  ⟨_, rfl, free_of_run (by decide : machine.Along Timely init lateRun) rfl ⟨rfl, rfl, rfl⟩⟩

end WiFiScan
