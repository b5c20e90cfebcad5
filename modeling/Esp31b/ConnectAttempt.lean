import Esp31b.Machine

/-!
# Connecting a client

`WiFiClient::connect(ip, port)` drops the connection it has, creates a pcb,
hands lwIP a callback with the client itself as argument and waits two
seconds for `_client` to become non-null. The callback stores a context
built from *its* pcb into the client it was given.

Nothing ties the two together. When the wait runs out the pcb is neither
aborted nor detached (`tcp_abort` is commented out), so its callback can
still fire – while the client is idle, or in the middle of a later
`connect`, whose wait it then ends. The machine below has every statement
the callback can fall between: a call has entered and dropped the old
connection, a call is waiting, or no call is running.

`ConnectState.Own` says that a successful call holds its own pcb. It is an
invariant of the runs in which no callback of an earlier attempt fires while
a call is in progress (`own_of_run`), and of no more than those:
`connect_keeps_stale_pcb` replays the interleaving that breaks it.
-/

namespace WiFiClient

/-- A protocol control block created by a `connect`, numbered in creation
order, with the peer it was asked for and its local port. -/
structure TcpPcb where
  id : ℕ
  ip : UInt32
  port : UInt16
  localPort : UInt16
  deriving DecidableEq, Repr

/-- Where the application is in `connect`. -/
inductive ConnectPc where
  /-- No call is running. -/
  | idle
  /-- The old connection is dropped, the pcb not yet created. -/
  | entered (ip : UInt32) (port : UInt16)
  /-- In the wait for `_client`, with the pcb this call created. -/
  | waiting (pcb : TcpPcb)
  deriving DecidableEq, Repr

/-- What a finished call left: the pcb it created, if it got that far, the
value it returned, and the pcb of the context in `_client` at that moment. -/
structure ConnectReturn where
  pcb : Option TcpPcb
  result : ℕ
  client : Option TcpPcb
  deriving DecidableEq, Repr

/-- A client and its connection attempts. `client` is `_client`, given by
the pcb its context was built from; `armed` are the pcbs whose connected
callback has not fired. -/
structure ConnectState where
  client : Option TcpPcb
  created : ℕ
  localPort : UInt16
  armed : List TcpPcb
  pc : ConnectPc
  returns : List ConnectReturn
  deriving DecidableEq, Repr

/-- What can happen: the application calls `connect` or `stop`, its call
advances or returns, or lwIP runs a callback. -/
inductive ConnectEvent where
  | connect (ip : UInt32) (port : UInt16)
  /-- `ip_route` finds no interface, or `tcp_new` no memory. -/
  | giveUp
  /-- `tcp_new` and `tcp_connect`. -/
  | open
  /-- The wait ends because `_client` is set or two seconds have passed. -/
  | leave (timedOut : Bool)
  /-- `_s_connected` for this pcb. -/
  | connected (pcb : TcpPcb)
  | stop
  deriving DecidableEq, Repr

namespace ConnectState

/-- `WiFiClient::stop`: the context is released and `_client` cleared. -/
def stop (s : ConnectState) : ConnectState :=
  if s.client.isNone then s else { s with client := none }

/-- `WiFiClient::_connected`: a context of the callback's pcb becomes
`_client`, whatever was there. -/
def connected (s : ConnectState) (pcb : TcpPcb) : ConnectState :=
  { s with client := some pcb, armed := s.armed.erase pcb }

/-- The pcb of the running call: numbered, addressed, and given the next
local port when a start port was set. -/
def newPcb (s : ConnectState) (ip : UInt32) (port : UInt16) : TcpPcb :=
  ⟨s.created, ip, port, if s.localPort > 0 then s.localPort else 0⟩

/-- One event. -/
def step (s : ConnectState) (e : ConnectEvent) : Option ConnectState :=
  match e with
  | .connect ip port =>
    match s.pc with
    | .idle => some { s.stop with pc := .entered ip port }
    | _ => none
  | .giveUp =>
    match s.pc with
    | .entered _ _ =>
      some { s with pc := .idle, returns := s.returns ++ [⟨none, 0, s.client⟩] }
    | _ => none
  | .open =>
    match s.pc with
    | .entered ip port =>
      let pcb := s.newPcb ip port
      some { s with
        created := s.created + 1
        localPort := if s.localPort > 0 then s.localPort + 1 else s.localPort
        armed := s.armed ++ [pcb]
        pc := .waiting pcb }
    | _ => none
  | .leave timedOut =>
    match s.pc with
    | .waiting pcb =>
      if s.client.isSome || timedOut then
        some { s with
          pc := .idle
          returns := s.returns ++ [⟨some pcb, if s.client.isSome then 1 else 0, s.client⟩] }
      else none
    | _ => none
  | .connected pcb => if pcb ∈ s.armed then some (s.connected pcb) else none
  | .stop =>
    match s.pc with
    | .idle => some s.stop
    | _ => none

/-- A client that has never connected. -/
def init (localPort : UInt16) : ConnectState := ⟨none, 0, localPort, [], .idle, []⟩

/-- The client as a machine. -/
def machine : Machine ConnectState ConnectEvent := ⟨step⟩

/-- **A successful call holds its own pcb**: whenever `connect` returned 1,
the context in `_client` was built from the pcb that call created. -/
def Own (s : ConnectState) : Prop :=
  ∀ r ∈ s.returns, r.result = 1 → r.client = r.pcb

instance : DecidablePred Own := fun _ => inferInstanceAs (Decidable (∀ _ ∈ _, _ → _))

/-- **No stale callback during a call**: a connected callback that fires
while a call is in progress is that call's own. -/
def Fresh (s : ConnectState) : ConnectEvent → Prop
  | .connected pcb => s.pc = .idle ∨ s.pc = .waiting pcb
  | _ => True

instance (s : ConnectState) : DecidablePred s.Fresh
  | .connected pcb => inferInstanceAs (Decidable (s.pc = .idle ∨ s.pc = .waiting pcb))
  | .connect _ _ | .giveUp | .open | .leave _ | .stop => inferInstanceAs (Decidable True)

/-- What a call in progress may find in `_client`: nothing before its pcb
exists, nothing or its own context after. -/
def ClientOk (s : ConnectState) : Prop :=
  match s.pc with
  | .idle => True
  | .entered _ _ => s.client = none
  | .waiting pcb => s.client = none ∨ s.client = some pcb

/-! ## One step -/

@[simp] theorem stop_client (s : ConnectState) : s.stop.client = none := by
  unfold stop
  split
  · rwa [← Option.isNone_iff_eq_none]
  · rfl

@[simp] theorem stop_returns (s : ConnectState) : s.stop.returns = s.returns := by
  unfold stop
  split <;> rfl

@[simp] theorem stop_pc (s : ConnectState) : s.stop.pc = s.pc := by
  unfold stop
  split <;> rfl

/-- A call that returns leaves its record last; the earlier ones stay. -/
theorem own_append {s t : ConnectState} {r : ConnectReturn} (hs : s.Own)
    (hr : r.result = 1 → r.client = r.pcb) (ht : t.returns = s.returns ++ [r]) : t.Own := by
  intro q hq hres
  rw [ht, List.mem_append, List.mem_singleton] at hq
  rcases hq with hq | rfl
  · exact hs q hq hres
  · exact hr hres

/-- **A step without a stale callback keeps both.** -/
theorem step_own {s t : ConnectState} {e : ConnectEvent} (hs : s.Own ∧ s.ClientOk)
    (hfresh : s.Fresh e) (hstep : s.step e = some t) : t.Own ∧ t.ClientOk := by
  obtain ⟨hown, hok⟩ := hs
  unfold step at hstep
  cases e with
  | connect ip port =>
    -- the call enters with the old connection dropped
    cases hpc : s.pc <;> rw [hpc] at hstep <;> cases hstep
    exact ⟨by simpa [Own] using hown, by simp [ClientOk]⟩
  | giveUp =>
    cases hpc : s.pc <;> rw [hpc] at hstep <;> cases hstep
    exact ⟨own_append hown (by simp) rfl, trivial⟩
  | «open» =>
    -- the new pcb's wait starts with `_client` still null
    cases hpc : s.pc <;> rw [hpc] at hstep <;> cases hstep
    have hnone : s.client = none := by simpa [ClientOk, hpc] using hok
    exact ⟨hown, Or.inl hnone⟩
  | leave timedOut =>
    cases hpc : s.pc with
    | idle => simp [hpc] at hstep
    | entered ip port => simp [hpc] at hstep
    | waiting pcb =>
      have hclient : s.client = none ∨ s.client = some pcb := by
        simpa [ClientOk, hpc] using hok
      rw [hpc] at hstep
      dsimp only at hstep
      split at hstep
      · cases hstep
        refine ⟨own_append hown ?_ rfl, trivial⟩
        intro hone
        rcases hclient with hnone | hsome
        · simp [hnone] at hone
        · exact hsome
      · cases hstep
  | connected pcb =>
    obtain ⟨-, rfl⟩ := Machine.of_guard hstep
    refine ⟨hown, ?_⟩
    rcases hfresh with hidle | hwait
    · simp [ClientOk, connected, hidle]
    · simp [ClientOk, connected, hwait]
  | stop =>
    cases hpc : s.pc <;> rw [hpc] at hstep <;> cases hstep
    exact ⟨by simpa [Own] using hown, by simp [ClientOk, hpc]⟩

/-- **Every run without a stale callback** – any calls, any order of
callbacks and time-outs, any state of other attempts – has every successful
`connect` hold the pcb it created. -/
theorem own_of_run (localPort : UInt16) (es : List ConnectEvent) (s : ConnectState)
    (hfresh : machine.Along Fresh (init localPort) es)
    (hrun : machine.run (init localPort) es = some s) : s.Own :=
  (Machine.invariant_of_along (I := fun s => s.Own ∧ s.ClientOk)
    (fun _ _ _ hs hP hstep => step_own hs hP hstep)
    ⟨by simp [Own, init], by simp [ClientOk, init]⟩ hfresh hrun).1

/-- A first attempt times out, its callback fires while the client is idle,
and a second attempt succeeds. -/
def idleCallback : List ConnectEvent :=
  [.connect 1 80, .open, .leave true, .connected ⟨0, 1, 80, 0⟩, .connect 2 80, .open,
    .connected ⟨1, 2, 80, 0⟩, .leave false]

theorem own_of_idleCallback :
    machine.Along Fresh (init 0) idleCallback ∧
      (machine.run (init 0) idleCallback).map (fun s => s.returns.map ConnectReturn.result)
        = some [0, 1] ∧
      ∀ s, machine.run (init 0) idleCallback = some s → s.Own :=
  ⟨by decide, by decide, fun s hs => own_of_run 0 idleCallback s (by decide) hs⟩

/-- The same callback, one event later: in the wait of the second attempt. -/
def staleCallback : List ConnectEvent :=
  [.connect 1 80, .open, .leave true, .connect 2 80, .open, .connected ⟨0, 1, 80, 0⟩,
    .leave false]

/-- **A late callback answers for another peer**: the second call, for peer
2, returns 1 with `_client` on the pcb of peer 1. -/
theorem connect_keeps_stale_pcb :
    ∃ s, machine.run (init 0) staleCallback = some s ∧
      s.returns.getLast? = some ⟨some ⟨1, 2, 80, 0⟩, 1, some ⟨0, 1, 80, 0⟩⟩ ∧ ¬ s.Own :=
  ⟨_, rfl, by decide, by decide⟩

end ConnectState

end WiFiClient
