import Esp31b.ByteMem
import Esp31b.Machine

/-!
# The TCP send path

`ESP31BWebServer::sendContent` walks over its text: it asks the client to
write what is left, at most 1460 bytes at a time, and advances by the count
the write returns. `ClientContext::write` hands `tcp_write` what there is
room for, remembers that number in `_size_sent`, and waits; every
acknowledgement `_sent(len)` subtracts from `_size_sent`. The wait ends when
`_size_sent` has changed, and the write returns the change.

So the count the loop advances by is what was *acknowledged*, while what is
behind the text's position is what was *handed over*. They agree when the
acknowledgements of one wait cover exactly what that write handed over, or
when none arrives at all, which ends the loop. Any other amount sends bytes
twice or skips them – and `_size_sent` is unsigned, so acknowledgements of
earlier writes can take it below zero.

The machine has the loop and the write as one program with the two places
where an acknowledgement makes a difference: after `tcp_write` but before
`_size_sent` is set, where it is lost, and in the wait, where it is counted.
-/

namespace ClientContext

/-- `HTTP_DOWNLOAD_UNIT_SIZE`. -/
def httpDownloadUnitSize : ℕ := 1460

/-- Where the program is. -/
inductive SendPc where
  /-- At the head of the loop in `sendContent`. -/
  | loop
  /-- `tcp_write` has taken the bytes, `_size_sent` is not yet set. -/
  | queued (willSend : ℕ)
  /-- In the wait, with the bytes acknowledged since `_size_sent` was set. -/
  | waiting (willSend acked : ℕ)
  /-- `sendContent` has returned. -/
  | done
  deriving DecidableEq, Repr

/-- A finished write: how many bytes it handed to `tcp_write` and the count
it returned. -/
structure WriteRecord where
  handed : ℕ
  returned : ℕ
  deriving DecidableEq, Repr

/-- The send side of a connection while `sendContent` runs over the text at
`sendStart`. -/
structure SendState where
  /-- The client has a context, and the context a pcb. -/
  client : Bool
  pcb : Bool
  /-- `_size_sent`. -/
  sizeSent : UInt32
  /-- `size_to_send` and, as an offset into the text, `send_start`. -/
  sizeToSend : UInt32
  sendStart : ℕ
  pc : SendPc
  /-- Handed to `tcp_write` by anyone and not yet acknowledged. -/
  inFlight : ℕ
  /-- The bytes this `sendContent` has handed to `tcp_write`, in order. -/
  handed : List UInt8
  writes : List WriteRecord
  deriving DecidableEq, Repr

/-- What can happen. `tcp_sndbuf` and the acknowledged length are 16-bit. -/
inductive SendEvent where
  /-- The loop calls `write` with this much room, and `tcp_write` accepts or
  refuses. -/
  | write (room : UInt16) (accepted : Bool)
  /-- `_size_sent = will_send`. -/
  | setSizeSent
  /-- The wait ends because `_size_sent` changed or five seconds passed, and
  `write` returns. -/
  | ret (timedOut : Bool)
  /-- The loop ends with nothing left. -/
  | finish
  /-- The callback `_sent(len)`. -/
  | sent (len : UInt16)
  /-- The callback `_error`, which clears `_pcb`. -/
  | error
  deriving DecidableEq, Repr

namespace SendState

variable (text : ByteMem)

/-- **A write returns to the loop**, which stops on 0 and otherwise advances
by the count. -/
def returnToLoop (s : SendState) (handed : ℕ) (sent : UInt32) : SendState :=
  let s := { s with writes := s.writes ++ [WriteRecord.mk handed sent.toNat] }
  if sent = 0 then { s with pc := .done }
  else { s with
    sizeToSend := s.sizeToSend - sent
    sendStart := s.sendStart + sent.toNat
    pc := .loop }

/-- What a write will send: a unit of what is left, cut to the room. -/
def willSend (s : SendState) (room : UInt16) : ℕ :=
  let size := min s.sizeToSend.toNat httpDownloadUnitSize
  if room.toNat < size then room.toNat else size

/-- `write` up to the call of `tcp_write`. -/
def write (s : SendState) (room : UInt16) (accepted : Bool) : SendState :=
  if s.client && s.pcb then
    if accepted then
      { s with
        handed := s.handed ++ text.slice s.sendStart (s.willSend room)
        inFlight := s.inFlight + s.willSend room
        pc := .queued (s.willSend room) }
    else s.returnToLoop 0 0
  else s.returnToLoop 0 0

/-- `_sent(len)`. -/
def sent (s : SendState) (len : UInt16) : SendState :=
  { s with
    sizeSent := s.sizeSent - UInt32.ofNat len.toNat
    inFlight := s.inFlight - len.toNat
    pc := match s.pc with
      | .waiting willSend acked => .waiting willSend (acked + len.toNat)
      | pc => pc }

/-- One event. An acknowledgement never exceeds what is in flight. -/
def step (s : SendState) (e : SendEvent) : Option SendState :=
  match e with
  | .write room accepted =>
    match s.pc with
    | .loop => if s.sizeToSend = 0 then none else some (s.write text room accepted)
    | _ => none
  | .finish =>
    match s.pc with
    | .loop => if s.sizeToSend = 0 then some { s with pc := .done } else none
    | _ => none
  | .setSizeSent =>
    match s.pc with
    | .queued willSend =>
      some { s with sizeSent := UInt32.ofNat willSend, pc := .waiting willSend 0 }
    | _ => none
  | .ret timedOut =>
    match s.pc with
    | .waiting willSend _ =>
      if s.sizeSent ≠ UInt32.ofNat willSend ∨ timedOut then
        some (s.returnToLoop willSend (UInt32.ofNat willSend - s.sizeSent))
      else none
    | _ => none
  | .sent len => if s.pcb ∧ len.toNat ≤ s.inFlight then some (s.sent len) else none
  | .error => some { s with pcb := false }

/-- `sendContent` on `n` bytes of text, over a connection with any history:
`_size_sent` is whatever earlier writes left, and their bytes may still be in
flight. -/
def init (client pcb : Bool) (sizeSent : UInt32) (inFlight : ℕ) (n : UInt32) : SendState :=
  ⟨client, pcb, sizeSent, n, 0, .loop, inFlight, [], []⟩

/-- The send path as a machine. -/
def machine : Machine SendState SendEvent := ⟨step text⟩

/-- **No byte is lost or sent twice**: what `tcp_write` was handed is a
prefix of the text, and no write reports more than it handed over. -/
def Faithful (n : UInt32) (s : SendState) : Prop :=
  s.handed <+: text.slice 0 n.toNat ∧ ∀ w ∈ s.writes, w.returned ≤ w.handed

/-- In a wait, nothing or all of what was handed over is acknowledged. -/
def AckedAll : SendPc → Prop
  | .waiting willSend acked => acked = 0 ∨ acked = willSend
  | _ => True

instance : DecidablePred AckedAll
  | .waiting willSend acked => inferInstanceAs (Decidable (acked = 0 ∨ acked = willSend))
  | .loop | .queued _ | .done => inferInstanceAs (Decidable True)

/-- **The acknowledgements of a wait are all or nothing**: when a write
returns, those that arrived since it set `_size_sent` add up to nothing or
to exactly what it handed over. -/
def AllOrNothing (s : SendState) : SendEvent → Prop
  | .ret _ => AckedAll s.pc
  | _ => True

instance (s : SendState) : DecidablePred s.AllOrNothing
  | .ret _ => inferInstanceAs (Decidable (AckedAll s.pc))
  | .write _ _ | .setSizeSent | .finish | .sent _ | .error => inferInstanceAs (Decidable True)

/-! ## The invariant

The position in the text, together with the write in progress, is where the
handed bytes end. -/

/-- How far beyond `sendStart` the bytes handed over reach. -/
def pending : SendPc → ℕ
  | .loop => 0
  | .queued willSend => willSend
  | .waiting willSend _ => willSend
  | .done => 0

/-- The position is in step with the bytes handed over, and in the wait
`_size_sent` is what was handed over less what was acknowledged. -/
structure InStep (n : UInt32) (s : SendState) : Prop where
  handed : ∃ h ≤ n.toNat, s.handed = text.slice 0 h ∧
    (s.pc ≠ .done → h = s.sendStart + pending s.pc)
  left : s.pc ≠ .done → s.sendStart + s.sizeToSend.toNat = n.toNat
  unit : pending s.pc ≤ httpDownloadUnitSize
  counted : ∀ willSend acked, s.pc = .waiting willSend acked →
    s.sizeSent = UInt32.ofNat willSend - UInt32.ofNat acked
  writes : ∀ w ∈ s.writes, w.returned ≤ w.handed

variable {text}

theorem inStep_init (client pcb : Bool) (sizeSent : UInt32) (inFlight : ℕ) (n : UInt32) :
    InStep text n (init client pcb sizeSent inFlight n) where
  handed := ⟨0, Nat.zero_le _, rfl, fun _ => rfl⟩
  left := fun _ => Nat.zero_add _
  unit := Nat.zero_le _
  counted := by simp [init]
  writes := by simp [init]

/-- **A write that reports nothing, or all it handed over, stays in step.** -/
theorem InStep.returnToLoop {n : UInt32} {s : SendState} (h : InStep text n s)
    (hpc : s.pc ≠ .done) {sent : UInt32}
    (hsent : sent = 0 ∨ sent.toNat = pending s.pc) :
    InStep text n (s.returnToLoop (pending s.pc) sent) := by
  obtain ⟨k, hk, hhanded, hpos⟩ := h.handed
  have hrec : ∀ w ∈ s.writes ++ [WriteRecord.mk (pending s.pc) sent.toNat],
      w.returned ≤ w.handed := by
    intro w hw
    rw [List.mem_append, List.mem_singleton] at hw
    rcases hw with hw | rfl
    · exact h.writes w hw
    · rcases hsent with rfl | hall
      · exact Nat.zero_le _
      · exact hall.le
  unfold SendState.returnToLoop
  by_cases hzero : sent = 0
  · simp only [hzero, if_true]
    exact ⟨⟨k, hk, hhanded, by simp⟩, by simp, Nat.zero_le _, by simp,
      by simpa [hzero] using hrec⟩
  · have hall := hsent.resolve_left hzero
    have hpos := hpos hpc
    have hleft := h.left hpc
    have hle : sent ≤ s.sizeToSend := by
      rw [UInt32.le_iff_toNat_le]
      omega
    simp only [hzero, if_false]
    refine ⟨⟨k, hk, hhanded, fun _ => ?_⟩, fun _ => ?_, Nat.zero_le _, by simp, hrec⟩
    · rw [show pending SendPc.loop = 0 from rfl, hall]
      omega
    · simp only [UInt32.toNat_sub_of_le _ _ hle]
      rw [UInt32.le_iff_toNat_le] at hle
      omega

/-- A refused or impossible write ends the loop. -/
theorem InStep.returnZero {n : UInt32} {s : SendState} (h : InStep text n s)
    (hpc : s.pc = .loop) : InStep text n (s.returnToLoop 0 0) := by
  have hpend : pending s.pc = 0 := by rw [hpc]; rfl
  rw [← hpend]
  exact h.returnToLoop (by simp [hpc]) (Or.inl rfl)

theorem willSend_le (s : SendState) (room : UInt16) :
    s.willSend room ≤ s.sizeToSend.toNat ∧ s.willSend room ≤ httpDownloadUnitSize := by
  unfold willSend
  simp only
  split <;> omega

/-- **Handing bytes to `tcp_write`** continues the text where it stood. -/
theorem InStep.write {n : UInt32} {s : SendState} (h : InStep text n s) (hpc : s.pc = .loop)
    (room : UInt16) (accepted : Bool) : InStep text n (s.write text room accepted) := by
  obtain ⟨k, hk, hhanded, hpos⟩ := h.handed
  have hpos : k = s.sendStart := by simpa [hpc, pending] using hpos
  have hleft : s.sendStart + s.sizeToSend.toNat = n.toNat := h.left (by simp [hpc])
  unfold SendState.write
  split
  · split
    · have hle := s.willSend_le room
      refine ⟨⟨k + s.willSend room, by omega, ?_, fun _ => ?_⟩, fun _ => hleft, hle.2, by simp,
        h.writes⟩
      · simp only [hhanded]
        rw [← hpos, ← ByteMem.slice_append, Nat.zero_add]
      · simp only [pending, hpos]
    · exact h.returnZero hpc
  · exact h.returnZero hpc

/-- An acknowledgement moves nothing but the counters. -/
theorem InStep.sent {n : UInt32} {s : SendState} (h : InStep text n s) (len : UInt16) :
    InStep text n (s.sent len) := by
  have hpend : pending (s.sent len).pc = pending s.pc := by
    simp only [SendState.sent]
    cases s.pc <;> rfl
  have hdone : (s.sent len).pc ≠ .done → s.pc ≠ .done := by
    intro hne hc
    exact hne (by simp [SendState.sent, hc])
  obtain ⟨k, hk, hhanded, hpos⟩ := h.handed
  refine ⟨⟨k, hk, hhanded, fun hne => ?_⟩, fun hne => h.left (hdone hne), ?_, ?_, h.writes⟩
  · rw [hpend]
    exact hpos (hdone hne)
  · rw [hpend]
    exact h.unit
  · intro willSend acked hwait
    simp only [SendState.sent] at hwait ⊢
    cases hpc : s.pc with
    | waiting w a =>
      simp only [hpc, SendPc.waiting.injEq] at hwait
      obtain ⟨rfl, rfl⟩ := hwait
      rw [h.counted w a hpc, UInt32.ofNat_add]
      grind
    | loop => simp [hpc] at hwait
    | queued w => simp [hpc] at hwait
    | done => simp [hpc] at hwait

theorem InStep.setSizeSent {n : UInt32} {s : SendState} (h : InStep text n s) {willSend : ℕ}
    (hpc : s.pc = .queued willSend) :
    InStep text n { s with sizeSent := UInt32.ofNat willSend, pc := .waiting willSend 0 } := by
  obtain ⟨k, hk, hhanded, hpos⟩ := h.handed
  have hunit := h.unit
  rw [hpc] at hunit hpos
  refine ⟨⟨k, hk, hhanded, fun _ => hpos (by simp)⟩, fun _ => h.left (by simp [hpc]), hunit,
    ?_, h.writes⟩
  intro w a hwait
  simp only [SendPc.waiting.injEq] at hwait
  obtain ⟨rfl, rfl⟩ := hwait
  simp

/-- What a write returns is what was acknowledged in its wait. -/
theorem InStep.counted_eq {n : UInt32} {s : SendState}
    (h : InStep text n s) {willSend acked : ℕ}
    (hpc : s.pc = .waiting willSend acked) :
    UInt32.ofNat willSend - s.sizeSent = UInt32.ofNat acked := by
  rw [h.counted willSend acked hpc]
  grind

/-- So a write that reports nothing, or all it handed over, leaves the loop in step. -/
theorem InStep.ret {n : UInt32} {s : SendState} (h : InStep text n s) {willSend acked : ℕ}
    (hpc : s.pc = .waiting willSend acked) (hall : acked = 0 ∨ acked = willSend) :
    InStep text n (s.returnToLoop willSend (UInt32.ofNat willSend - s.sizeSent)) := by
  have hpend : pending s.pc = willSend := by rw [hpc]; rfl
  have hunit := h.unit
  rw [h.counted_eq hpc, ← hpend]
  refine h.returnToLoop (by simp [hpc]) ?_
  rcases hall with rfl | rfl
  · exact Or.inl rfl
  · right
    rw [hpend] at hunit ⊢
    exact UInt32.toNat_ofNat_of_lt' (by unfold httpDownloadUnitSize at hunit; norm_num; omega)

/-- **A step whose wait is all or nothing stays in step.** -/
theorem InStep.step {n : UInt32} {s t : SendState} {e : SendEvent} (h : InStep text n s)
    (hack : s.AllOrNothing e) (hstep : s.step text e = some t) : InStep text n t := by
  obtain ⟨k, hk, hhanded, hpos⟩ := h.handed
  unfold SendState.step at hstep
  cases e with
  | write room accepted =>
    dsimp only at hstep
    split at hstep
    · rename_i hpc
      split at hstep
      · cases hstep
      · cases hstep
        exact h.write hpc room accepted
    · cases hstep
  | finish =>
    dsimp only at hstep
    split at hstep
    · split at hstep
      · cases hstep
        exact ⟨⟨k, hk, hhanded, by simp⟩, by simp, Nat.zero_le _, by simp, h.writes⟩
      · cases hstep
    · cases hstep
  | setSizeSent =>
    dsimp only at hstep
    split at hstep
    · rename_i willSend hpc
      cases hstep
      exact h.setSizeSent hpc
    · cases hstep
  | ret timedOut =>
    dsimp only at hstep
    split at hstep
    · rename_i willSend acked hpc
      split at hstep
      · cases hstep
        exact h.ret hpc (by simpa [AllOrNothing, hpc, AckedAll] using hack)
      · cases hstep
    · cases hstep
  | sent len =>
    obtain ⟨-, rfl⟩ := Machine.of_guard hstep
    exact h.sent len
  | error =>
    cases hstep
    exact ⟨⟨k, hk, hhanded, hpos⟩, h.left, h.unit, h.counted, h.writes⟩

theorem InStep.faithful {n : UInt32} {s : SendState} (h : InStep text n s) :
    Faithful text n s := by
  obtain ⟨k, hk, hhanded, -⟩ := h.handed
  refine ⟨⟨text.slice k (n.toNat - k), ?_⟩, h.writes⟩
  have happ := ByteMem.slice_append text 0 k (n.toNat - k)
  rw [Nat.zero_add, Nat.add_sub_cancel' hk] at happ
  rw [hhanded, happ]

/-- **Every run whose waits are all or nothing is faithful**, whatever the
text, the history of the connection, the room `tcp_sndbuf` reports and the
order and sizes of the acknowledgements. -/
theorem faithful_of_run (text : ByteMem) (n : UInt32) (client pcb : Bool) (sizeSent : UInt32)
    (inFlight : ℕ) (es : List SendEvent) (s : SendState)
    (hack : (machine text).Along AllOrNothing (init client pcb sizeSent inFlight n) es)
    (hrun : (machine text).run (init client pcb sizeSent inFlight n) es = some s) :
    Faithful text n s :=
  (Machine.invariant_of_along (I := InStep text n)
    (fun _ _ _ hs hP hstep => hs.step hP hstep)
    (inStep_init client pcb sizeSent inFlight n) hack hrun).faithful

/-! ## Whole texts -/

/-- A text where `sendContent` finds it. -/
def textOf (content : List UInt8) : ByteMem := fun i => content.getD i 0

theorem slice_textOf (content : List UInt8) :
    (textOf content).slice 0 content.length = content := by
  refine List.ext_getElem (ByteMem.length_slice _ _ _) fun i h₁ h₂ => ?_
  rw [ByteMem.getElem_slice, Nat.zero_add, textOf, List.getD_eq_getElem?_getD,
    List.getElem?_eq_getElem h₂, Option.getD_some]

/-- The call of `sendContent(content)` on a connection. -/
def start (k : SendState) (content : List UInt8) : SendState :=
  init k.client k.pcb k.sizeSent k.inFlight (UInt32.ofNat content.length)

/-- `sendContent(content)`, from the call to the return, while this happens to the
connection. -/
def sendContent (k : SendState) (content : List UInt8) (es : List SendEvent) :
    Option SendState :=
  ((machine (textOf content)).run (k.start content) es).filter (fun k => k.pc = .done)

/-- A wait ends with all that was handed over acknowledged, or with nothing where nothing is
left to hand over. -/
def AckedToEnd (sizeToSend : ℕ) : SendPc → Prop
  | .waiting willSend acked => acked = willSend ∧ 0 < willSend ∨ acked = 0 ∧
      willSend = sizeToSend
  | _ => True

instance (sizeToSend : ℕ) : DecidablePred (AckedToEnd sizeToSend)
  | .waiting willSend acked =>
    inferInstanceAs (Decidable (acked = willSend ∧ 0 < willSend ∨ acked = 0 ∧
      willSend = sizeToSend))
  | .loop | .queued _ | .done => inferInstanceAs (Decidable True)

/-- **The writes go on**: none is refused, and none returns early. -/
def GoesOn (s : SendState) : SendEvent → Prop
  | .write _ accepted => s.client = true ∧ s.pcb = true ∧ accepted = true
  | .ret _ => AckedToEnd s.sizeToSend.toNat s.pc
  | _ => True

instance (s : SendState) : DecidablePred s.GoesOn
  | .write _ accepted =>
    inferInstanceAs (Decidable (s.client = true ∧ s.pcb = true ∧ accepted = true))
  | .ret _ => inferInstanceAs (Decidable (AckedToEnd s.sizeToSend.toNat s.pc))
  | .setSizeSent | .finish | .sent _ | .error => inferInstanceAs (Decidable True)

/-- All writes of a `sendContent` go on. -/
def WritesGoOn (k : SendState) (content : List UInt8) (es : List SendEvent) : Prop :=
  (machine (textOf content)).Along GoesOn (k.start content) es

instance (k : SendState) (content : List UInt8) (es : List SendEvent) :
    Decidable (k.WritesGoOn content es) :=
  inferInstanceAs (Decidable ((machine (textOf content)).Along GoesOn _ es))

/-- Such acknowledgements are all or nothing. -/
theorem GoesOn.allOrNothing {s : SendState} {e : SendEvent} (h : s.GoesOn e) :
    s.AllOrNothing e := by
  cases e with
  | ret timedOut =>
    have hacked : AckedToEnd s.sizeToSend.toNat s.pc := h
    show AckedAll s.pc
    cases hpc : s.pc with
    | waiting willSend acked =>
      rw [hpc] at hacked
      rcases hacked with ⟨hall, -⟩ | ⟨hnone, -⟩
      · exact Or.inr hall
      · exact Or.inl hnone
    | loop => trivial
    | queued willSend => trivial
    | done => trivial
  | write room accepted => trivial
  | setSizeSent => trivial
  | finish => trivial
  | sent len => trivial
  | error => trivial

/-- A write that returns nothing has handed over the rest. -/
theorem InStep.ret_whole {n : UInt32} {s : SendState} (h : InStep text n s) {willSend acked : ℕ}
    (hpc : s.pc = .waiting willSend acked) (hacked : AckedToEnd s.sizeToSend.toNat s.pc)
    (hdone : (s.returnToLoop willSend (UInt32.ofNat willSend - s.sizeSent)).pc = .done) :
    (s.returnToLoop willSend (UInt32.ofNat willSend - s.sizeSent)).handed
      = text.slice 0 n.toNat := by
  obtain ⟨k, -, hhanded, hpos⟩ := h.handed
  have hunit : pending s.pc ≤ httpDownloadUnitSize := h.unit
  have hleft := h.left (by simp [hpc])
  have hat := hpos (by simp [hpc])
  rw [hpc, show pending (SendPc.waiting willSend acked) = willSend from rfl] at hat hunit
  rw [hpc] at hacked
  rw [h.counted_eq hpc] at hdone ⊢
  by_cases hzero : UInt32.ofNat acked = 0
  · have hlast : willSend = s.sizeToSend.toNat := by
      rcases hacked with ⟨rfl, hpos⟩ | ⟨-, hlast⟩
      · have hnat : (UInt32.ofNat acked).toNat = acked :=
          UInt32.toNat_ofNat_of_lt' (by unfold httpDownloadUnitSize at hunit; norm_num; omega)
        rw [hzero, UInt32.toNat_zero] at hnat
        omega
      · exact hlast
    rw [SendState.returnToLoop, if_pos hzero]
    show s.handed = _
    rw [hhanded, hat, hlast, hleft]
  · rw [SendState.returnToLoop, if_neg hzero] at hdone
    cases hdone

/-- **What is handed over when the loop ends is the whole text**, if the writes go on. -/
theorem InStep.whole {n : UInt32} {s t : SendState} {e : SendEvent} (h : InStep text n s)
    (hwhole : s.pc = .done → s.handed = text.slice 0 n.toNat) (hon : s.GoesOn e)
    (hstep : s.step text e = some t) : t.pc = .done → t.handed = text.slice 0 n.toNat := by
  obtain ⟨k, hk, hhanded, hpos⟩ := h.handed
  unfold SendState.step at hstep
  cases e with
  | write room accepted =>
    dsimp only at hstep
    split at hstep
    · split at hstep
      · cases hstep
      · obtain ⟨hclient, hpcb, haccepted⟩ : s.client = true ∧ s.pcb = true ∧ accepted = true :=
          hon
        cases hstep
        rw [SendState.write, hclient, hpcb, haccepted, Bool.and_self, if_pos rfl, if_pos rfl]
        exact fun hdone => (by cases hdone)
    · cases hstep
  | finish =>
    dsimp only at hstep
    split at hstep
    · rename_i hpc
      split at hstep
      · rename_i hzero
        cases hstep
        have hleft := h.left (by simp [hpc])
        have hat := hpos (by simp [hpc])
        rw [hpc, show pending SendPc.loop = 0 from rfl] at hat
        rw [hzero, UInt32.toNat_zero] at hleft
        intro
        rw [hhanded, hat, ← hleft]
      · cases hstep
    · cases hstep
  | setSizeSent =>
    dsimp only at hstep
    split at hstep
    · cases hstep
      exact fun hdone => (by cases hdone)
    · cases hstep
  | ret timedOut =>
    dsimp only at hstep
    split at hstep
    · rename_i willSend acked hpc
      split at hstep
      · cases hstep
        exact h.ret_whole hpc hon
      · cases hstep
    · cases hstep
  | sent len =>
    obtain ⟨-, rfl⟩ := Machine.of_guard hstep
    intro hdone
    refine hwhole ?_
    simp only [SendState.sent] at hdone
    cases hpc : s.pc with
    | done => rfl
    | loop => simp [hpc] at hdone
    | queued w => simp [hpc] at hdone
    | waiting w a => simp [hpc] at hdone
  | error =>
    cases hstep
    exact hwhole

/-- **A text whose writes go on is handed over as it is.** -/
theorem handed_of_sendContent {k s : SendState} {content : List UInt8} {es : List SendEvent}
    (hlen : content.length < 2 ^ 32) (hon : k.WritesGoOn content es)
    (hrun : k.sendContent content es = some s) : s.handed = content := by
  obtain ⟨hrun, hdone⟩ := Option.filter_eq_some_iff.mp hrun
  have hnat : (UInt32.ofNat content.length).toNat = content.length :=
    UInt32.toNat_ofNat_of_lt' hlen
  have hwhole := (Machine.invariant_of_along
    (I := fun s => InStep (textOf content) (UInt32.ofNat content.length) s ∧
      (s.pc = .done → s.handed = (textOf content).slice 0 (UInt32.ofNat content.length).toNat))
    (fun _ _ _ hs hP hstep => ⟨hs.1.step hP.allOrNothing hstep, hs.1.whole hs.2 hP hstep⟩)
    ⟨inStep_init _ _ _ _ _, fun hpc => (by cases hpc)⟩ hon hrun).2 (of_decide_eq_true hdone)
  rw [hwhole, hnat, slice_textOf]

/-! ## A round of the loop -/

/-- A write of which `acked` bytes are acknowledged in its wait. -/
def round (room : UInt16) (acked : ℕ) : List SendEvent :=
  [.write room true, .setSizeSent, .sent (UInt16.ofNat acked), .ret false]

/-- What it leaves: the loop goes on behind what was acknowledged. -/
def behindRound (text : ByteMem) (s : SendState) (room : UInt16) (acked : ℕ) : SendState :=
  { s with
    handed := s.handed ++ text.slice s.sendStart (s.willSend room)
    inFlight := s.inFlight + s.willSend room - acked
    sizeSent := UInt32.ofNat (s.willSend room) - UInt32.ofNat acked
    writes := s.writes ++ [WriteRecord.mk (s.willSend room) acked]
    sizeToSend := s.sizeToSend - UInt32.ofNat acked
    sendStart := s.sendStart + acked
    pc := .loop }

variable {s k : SendState} {room : UInt16} {acked : ℕ} {content : List UInt8}

theorem run_round (text : ByteMem) (s : SendState) (room : UInt16) (hpc : s.pc = .loop)
    (hclient : s.client = true) (hpcb : s.pcb = true) (hleft : s.sizeToSend ≠ 0)
    (hpos : 0 < acked) (hle : acked ≤ s.willSend room) :
    (machine text).run s (round room acked) = some (behindRound text s room acked) := by
  have hunit := (s.willSend_le room).2
  unfold httpDownloadUnitSize at hunit
  have h16 : (UInt16.ofNat acked).toNat = acked :=
    UInt16.toNat_ofNat_of_lt' (by norm_num; omega)
  have h32 : (UInt32.ofNat acked).toNat = acked :=
    UInt32.toNat_ofNat_of_lt' (by norm_num; omega)
  have hne : UInt32.ofNat acked ≠ 0 := fun h0 => by
    rw [h0, UInt32.toNat_zero] at h32
    omega
  have hcount : UInt32.ofNat (s.willSend room) -
      (UInt32.ofNat (s.willSend room) - UInt32.ofNat acked) = UInt32.ofNat acked := by
    grind
  have hchanged : UInt32.ofNat (s.willSend room) - UInt32.ofNat acked ≠
      UInt32.ofNat (s.willSend room) := fun heq => hne (by grind)
  have hwrite : s.write text room true = { s with
      handed := s.handed ++ text.slice s.sendStart (s.willSend room)
      inFlight := s.inFlight + s.willSend room
      pc := .queued (s.willSend room) } := by
    rw [write, hclient, hpcb, Bool.and_self, if_pos rfl, if_pos rfl]
  simp only [round, Machine.run, machine, step, hpc, if_neg hleft, hwrite,
    Option.bind_some, h16, SendState.sent, hpcb, true_and]
  rw [if_pos (by omega), Option.bind_some]
  dsimp only
  rw [Nat.zero_add, if_pos (Or.inl hchanged)]
  simp only [Option.bind_some, returnToLoop, hcount, if_neg hne, h32, behindRound, hpcb]

/-- It goes on, if all that was handed over is acknowledged. -/
theorem along_round (hpc : s.pc = .loop) (hclient : s.client = true) (hpcb : s.pcb = true)
    (hpos : 0 < acked) (hall : s.willSend room = acked) :
    (machine text).Along GoesOn s (round room acked) := by
  have hunit := (s.willSend_le room).2
  unfold httpDownloadUnitSize at hunit
  have h16 : (UInt16.ofNat acked).toNat = acked :=
    UInt16.toNat_ofNat_of_lt' (by norm_num; omega)
  refine ⟨⟨hclient, hpcb, rfl⟩, fun t ht => ⟨trivial, fun u hu => ⟨trivial, fun v hv =>
    ⟨?_, fun _ _ => trivial⟩⟩⟩⟩
  have hqueued : t.pc = .queued acked := by
    simp only [machine, step, hpc] at ht
    split at ht
    · cases ht
    · rw [write, hclient, hpcb, Bool.and_self, if_pos rfl, if_pos rfl] at ht
      cases ht
      rw [hall]
  have hwaiting : u.pc = .waiting acked 0 := by
    simp only [machine, step, hqueued] at hu
    cases hu
    rfl
  obtain ⟨-, rfl⟩ := Machine.of_guard hv
  show AckedToEnd _ _
  simp only [SendState.sent, hwaiting, h16, Nat.zero_add]
  exact Or.inl ⟨rfl, hpos⟩

theorem run_finish (hpc : s.pc = .loop) (hleft : s.sizeToSend = 0) :
    (machine text).run s [.finish] = some { s with pc := .done } := by
  simp only [Machine.run, machine, step, hpc, if_pos hleft, Option.bind_some]

/-- With room for a text of one unit, the first write takes it whole. -/
theorem willSend_start (k : SendState) (hle : content.length ≤ httpDownloadUnitSize) :
    (k.start content).willSend 2920 = content.length := by
  unfold httpDownloadUnitSize at hle
  have h32 : (UInt32.ofNat content.length).toNat = content.length :=
    UInt32.toNat_ofNat_of_lt' (by norm_num; omega)
  have hroom : (2920 : UInt16).toNat = 2920 := rfl
  simp only [willSend, start, init, h32, hroom, httpDownloadUnitSize]
  rw [if_neg (by omega)]
  omega

theorem sizeToSend_start (k : SendState) (hne : content ≠ [])
    (hle : content.length ≤ httpDownloadUnitSize) : (k.start content).sizeToSend ≠ 0 := by
  intro h0
  have hpos := List.length_pos_iff.mpr hne
  unfold httpDownloadUnitSize at hle
  have h32 : (UInt32.ofNat content.length).toNat = content.length :=
    UInt32.toNat_ofNat_of_lt' (by norm_num; omega)
  rw [show UInt32.ofNat content.length = 0 from h0, UInt32.toNat_zero] at h32
  omega

/-- One write for a text, which is acknowledged as a whole. -/
def ackedWhole (content : List UInt8) : List SendEvent := round 2920 content.length ++ [.finish]

/-- **A text in one write that is acknowledged as a whole** goes out. -/
theorem sendContent_ackedWhole (hclient : k.client = true) (hpcb : k.pcb = true)
    (hne : content ≠ []) (hle : content.length ≤ httpDownloadUnitSize) :
    k.WritesGoOn content (ackedWhole content) ∧
      ∃ k', k.sendContent content (ackedWhole content) = some k' ∧ k'.client = true ∧
        k'.pcb = true := by
  have hpos := List.length_pos_iff.mpr hne
  have hwill := willSend_start k hle
  have hrun := run_round (textOf content) (k.start content) 2920 rfl hclient hpcb
    (sizeToSend_start k hne hle) hpos hwill.ge
  have hsent : k.sendContent content (ackedWhole content) =
      some { behindRound (textOf content) (k.start content) 2920 content.length with
        pc := .done } := by
    rw [sendContent, ackedWhole, Machine.run_append, hrun, Option.bind_some,
      run_finish rfl (UInt32.sub_self _), Option.filter_some, if_pos (decide_eq_true rfl)]
  exact ⟨Machine.along_append.mpr ⟨along_round rfl hclient hpcb hpos hwill, fun t _ =>
    ⟨trivial, fun _ _ => trivial⟩⟩, _, hsent, hclient, hpcb⟩

/-- One byte of a text is acknowledged while its write waits, and the rest while the next one
does. -/
def ackedInPart (content : List UInt8) : List SendEvent :=
  round 2920 1 ++ round 2920 (content.length - 1) ++ [.finish]

/-- **A text of which the first byte is acknowledged first** is handed over a second time from
its second byte on. -/
theorem sendContent_ackedInPart (hclient : k.client = true) (hpcb : k.pcb = true)
    (htwo : 2 ≤ content.length) (hle : content.length ≤ httpDownloadUnitSize) :
    ∃ k', k.sendContent content (ackedInPart content) = some k' ∧ k'.client = true ∧
      k'.pcb = true ∧ k'.handed = content ++ content.drop 1 := by
  have hne : content ≠ [] := List.ne_nil_of_length_pos (by omega)
  have hwill := willSend_start k hle
  have hrun := run_round (textOf content) (k.start content) 2920 rfl hclient
    hpcb (sizeToSend_start k hne hle) Nat.one_pos (by omega)
  set t := behindRound (textOf content) (k.start content) 2920 1 with ht
  have hleft : t.sizeToSend = UInt32.ofNat (content.length - 1) := by
    show UInt32.ofNat content.length - UInt32.ofNat 1 = _
    rw [UInt32.ofNat_sub (by omega)]
  have hle' := hle
  unfold httpDownloadUnitSize at hle'
  have h32 : (UInt32.ofNat (content.length - 1)).toNat = content.length - 1 :=
    UInt32.toNat_ofNat_of_lt' (by norm_num; omega)
  have hwill' : t.willSend 2920 = content.length - 1 := by
    have hroom : (2920 : UInt16).toNat = 2920 := rfl
    simp only [willSend, hleft, h32, hroom, httpDownloadUnitSize]
    rw [if_neg (by omega)]
    omega
  have hne' : t.sizeToSend ≠ 0 := fun h0 => by
    rw [← hleft, h0, UInt32.toNat_zero] at h32
    omega
  have hrun' := run_round (textOf content) t 2920 rfl hclient hpcb hne'
    (by omega : 0 < content.length - 1) hwill'.ge
  have hsent : k.sendContent content (ackedInPart content) =
      some { behindRound (textOf content) t 2920 (content.length - 1) with pc := .done } := by
    rw [sendContent, ackedInPart, Machine.run_append, Machine.run_append,
      hrun, Option.bind_some, hrun', Option.bind_some, run_finish rfl (by
        show t.sizeToSend - _ = 0
        rw [hleft]
        exact UInt32.sub_self _), Option.filter_some, if_pos (decide_eq_true rfl)]
  refine ⟨_, hsent, hclient, hpcb, ?_⟩
  show ([] ++ (textOf content).slice 0 ((k.start content).willSend 2920)) ++
    (textOf content).slice (0 + 1) (t.willSend 2920) = _
  rw [hwill, hwill', List.nil_append, Nat.zero_add, slice_textOf]
  have hdrop :=
    ByteMem.drop_slice (m := textOf content) (p := 0) (by omega : 1 ≤ content.length)
  rw [slice_textOf, Nat.zero_add] at hdrop
  rw [hdrop]

/-- The text `abc`, with zeros behind it. -/
def abc : ByteMem := fun i => [97, 98, 99].getD i 0

/-- Two bytes of room, acknowledged one at a time before the write looks
again; then the third byte. -/
def wholeAcks : List SendEvent :=
  [.write 2 true, .setSizeSent, .sent 1, .sent 1, .ret false,
    .write 10 true, .setSizeSent, .sent 1, .ret false, .finish]

theorem faithful_of_wholeAcks :
    (machine abc).Along AllOrNothing (init true true 0 0 3) wholeAcks ∧
      ((machine abc).run (init true true 0 0 3) wholeAcks).map SendState.handed
        = some [97, 98, 99] ∧
      ∀ s, (machine abc).run (init true true 0 0 3) wholeAcks = some s → Faithful abc 3 s :=
  ⟨by decide, by decide,
    fun s hs => faithful_of_run abc 3 true true 0 0 wholeAcks s (by decide) hs⟩

/-- The text `ab` in one segment, of which one byte is acknowledged first. -/
def partialAcks : List SendEvent :=
  [.write 10 true, .setSizeSent, .sent 1, .ret false,
    .write 10 true, .setSizeSent, .sent 2, .ret false]

/-- **A partial acknowledgement sends a byte twice**: `tcp_write` is handed
`abb` for the text `ab`, and the second write, which handed over one byte,
reports two. -/
theorem partial_ack_not_faithful :
    ∃ s, (machine abc).run (init true true 0 0 2) partialAcks = some s ∧
      s.handed = [97, 98, 98] ∧ s.writes = [⟨2, 1⟩, ⟨1, 2⟩] ∧
      ¬ s.handed <+: abc.slice 0 2 ∧ ¬ (∀ w ∈ s.writes, w.returned ≤ w.handed) ∧
      ¬ Faithful abc 2 s := by
  refine ⟨_, rfl, by decide, by decide, by decide, by decide, fun h => ?_⟩
  exact absurd h.1 (by decide)

end SendState

end ClientContext
