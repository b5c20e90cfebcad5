import Esp31b.ClientFrame
import Esp31b.Machine

/-!
# A client over its requests

An `HTTPClient` is used for one request after the other, and its fields are
what one request may find of the others. The machine below has every call an
application can make on a client, in any order, `setAuthorization` apart, and
the callback of a connection attempt that was given up on. It keeps a record of what
each request has handed to the connection: the header block, as `sendHeader`
composes it, and the bytes the connection has taken.

To say what those are `sendRequest` is cut in two, `sendAll` and `receive`,
and the form for streams in the same way.
-/

namespace HTTPClient

/-! ## The settings -/

/-- `setUserAgent`. -/
def setUserAgent (c : HTTPClient) (userAgent : WString) : HTTPClient :=
  { c with userAgent := userAgent }

/-- `useHTTP10`. -/
def setUseHTTP10 (c : HTTPClient) (useHTTP10 : Bool) : HTTPClient :=
  { c with useHTTP10 := useHTTP10 }

/-- `setTimeout`. -/
def setTimeout (c : HTTPClient) (timeout : UInt16) : HTTPClient :=
  let (up, c) := ({ c with tcpTimeout := timeout } : HTTPClient).connected
  match up, c.connection with
  | true, some k => c.setLink { k.link with timeout := timeout.toNat }
  | _, _ => c

/-- `collectHeaders`. -/
def collectHeaders (c : HTTPClient) (headerKeys : List WString) : HTTPClient :=
  { c with currentHeaders := headerKeys.map (fun k => ⟨k, []⟩) }

/-! ## What a request sends -/

/-- The body is announced, if there is one. -/
def announce (c : HTTPClient) (size : ℕ) : HTTPClient :=
  if 0 < size then c.addHeader (ascii "Content-Length") (ascii (toString size)) false else c

/-- **The header block of a request**, which is composed when the client has a
connection. -/
def headerBlock (c : HTTPClient) (answer : Answer) (type : WString) (size : ℕ) :
    Option WString :=
  if (c.connect answer).1 then some (((c.connect answer).2.announce size).headerText type)
    else none

/-- `sendRequest` up to where all is sent. -/
def sendAll (c : HTTPClient) (answer : Answer) (type : WString) (payload : List UInt8) :
    Except ℤ Unit × HTTPClient :=
  match c.sendHead answer type payload.length with
  | (.error e, c) => (.error e, c)
  | (.ok (), c) =>
    let (n, c) := if 0 < payload.length then c.tcpWrite payload else (0, c)
    (if n ≠ payload.length then .error errorSendPayloadFailed else .ok (), c)

/-- The same for the form with a stream. -/
def sendStream (c : HTTPClient) (answer : Answer) (type : WString) (stream : Source) (size : ℕ)
    (ram : List UInt8) : Fueled (Except ℤ Unit × Source × HTTPClient) := do
  match c.sendHead answer type size with
  | (.error e, c) => return (.error e, stream, c)
  | (.ok (), c) =>
    let len := if int32 size = 0 then -1 else int32 size
    let buffSize := if 0 < len ∧ len < tcpBufferSize then len.toNat else tcpBufferSize
    let (ok, s) ← Fueled.loop (fun s => pure (sendTurn buffSize s)) ⟨c, stream, len, 0, ram⟩
    let failed := !ok ∨ (0 < size ∧ int32 size ≠ s.bytesWritten)
    return (if failed then .error errorSendPayloadFailed else .ok (), s.stream, s.client)

/-- The rest of `sendRequest`. -/
def receive : Except ℤ Unit × HTTPClient → Fueled (ℤ × HTTPClient)
  | (.error e, c) => pure (c.returnError e)
  | (.ok (), c) => do
    let (code, c) ← c.handleHeaderResponse
    return c.returnError code

variable (c : HTTPClient) (answer : Answer) (type : WString)

/-- **`sendHead` sends the header block.** -/
theorem sendHead_eq (size : ℕ) : c.sendHead answer type size =
    if (c.connect answer).1 then
      (if (((c.connect answer).2.announce size).sendHeader type).1 then .ok ()
        else .error errorSendHeaderFailed,
          (((c.connect answer).2.announce size).sendHeader type).2)
    else (.error errorConnectionRefused, (c.connect answer).2) := by
  unfold sendHead announce
  dsimp only
  cases (c.connect answer).1 with
  | false => rfl
  | true =>
    rw [Bool.not_true, if_neg (by decide), if_pos rfl]
    generalize HTTPClient.sendHeader _ type = r
    obtain ⟨ok, d⟩ := r
    cases ok <;> rfl

theorem sendRequest_eq (payload : List UInt8) :
    c.sendRequest answer type payload = receive (c.sendAll answer type payload) := by
  unfold sendRequest sendAll
  generalize c.sendHead answer type payload.length = head
  obtain ⟨ok, d⟩ := head
  cases ok with
  | error e => rfl
  | ok u =>
    dsimp only
    generalize (if 0 < payload.length then d.tcpWrite payload else (0, d)) = sent
    by_cases hn : sent.1 ≠ payload.length
    · rw [if_pos hn, if_pos hn]
      rfl
    · rw [if_neg hn, if_neg hn]
      rfl

theorem sendRequestStream_eq (stream : Source) (size : ℕ) (ram : List UInt8) :
    c.sendRequestStream answer type (some stream) size ram = do
      let (r, stream, c) ← c.sendStream answer type stream size ram
      let (code, c) ← receive (r, c)
      return (code, some stream, c) := by
  unfold sendRequestStream sendStream
  dsimp only
  generalize c.sendHead answer type size = head
  obtain ⟨ok, d⟩ := head
  cases ok with
  | error e => rfl
  | ok u =>
    funext n
    dsimp only
    show Option.bind _ _ = Option.bind (Option.bind _ _) _
    rw [Option.bind_assoc]
    refine congrArg (Option.bind _) (funext fun r => ?_)
    obtain ⟨ok, s⟩ := r
    dsimp only
    show _ = Option.bind (some _) _
    rw [Option.bind_some]
    dsimp only
    split
    · rfl
    · show Option.bind _ _ = Option.bind (Option.bind _ _) _
      rw [Option.bind_assoc]
      rfl

/-! ## What stays over a request -/

/-- The client as `sendHeader` finds it. -/
def ready (size : ℕ) : HTTPClient :=
  if (c.connect answer).1 then (c.connect answer).2.announce size else (c.connect answer).2

theorem setup_sendHead (size : ℕ) :
    (c.sendHead answer type size).2.setup = (c.ready answer size).setup := by
  rw [sendHead_eq]
  unfold ready
  split
  · exact setup_sendHeader _ _
  · rfl

theorem setup_sendAll (payload : List UInt8) :
    (c.sendAll answer type payload).2.setup = (c.ready answer payload.length).setup := by
  have hhead := c.setup_sendHead answer type payload.length
  unfold sendAll
  generalize c.sendHead answer type payload.length = head at hhead
  obtain ⟨ok, d⟩ := head
  cases ok with
  | error e => exact hhead
  | ok u =>
    dsimp only at hhead ⊢
    split
    · exact (setup_tcpWrite _ _).trans hhead
    · exact hhead

theorem setup_sendStream (stream : Source) (size : ℕ) (ram : List UInt8) :
    (c.sendStream answer type stream size ram).Gives fun r =>
    r.2.2.setup = (c.ready answer size).setup := by
  have hhead := c.setup_sendHead answer type size
  unfold sendStream
  generalize c.sendHead answer type size = head at hhead
  obtain ⟨ok, d⟩ := head
  cases ok with
  | error e => exact Fueled.gives_pure hhead
  | ok u => exact (setup_sendLoop _ _).bind fun r hr => Fueled.gives_pure (hr.trans hhead)

theorem setup_receive (r : Except ℤ Unit × HTTPClient) :
    (receive r).Gives fun t => t.2.setup = r.2.setup := by
  obtain ⟨ok, d⟩ := r
  cases ok with
  | error e => exact Fueled.gives_pure (d.setup_returnError e)
  | ok u =>
    exact d.setup_handleHeaderResponse.bind fun r hr =>
      Fueled.gives_pure ((setup_returnError _ _).trans hr)

theorem setup_sendRequest (payload : List UInt8) :
    (c.sendRequest answer type payload).Gives fun r =>
    r.2.setup = (c.ready answer payload.length).setup := by
  rw [sendRequest_eq]
  intro n r hr
  exact (setup_receive _ n r hr).trans (c.setup_sendAll answer type payload)

theorem setup_sendRequestStream (stream : Source) (size : ℕ) (ram : List UInt8) :
    (c.sendRequestStream answer type (some stream) size ram).Gives
      fun r => r.2.2.setup = (c.ready answer size).setup := by
  rw [sendRequestStream_eq]
  exact (c.setup_sendStream answer type stream size ram).bind fun r hr =>
    (setup_receive (r.1, r.2.2)).bind fun t ht => Fueled.gives_pure (ht.trans hr)

theorem setup_setTimeout (timeout : UInt16) : (c.setTimeout timeout).setup = c.setup := by
  have hconnected := setup_connected { c with tcpTimeout := timeout }
  unfold setTimeout
  generalize HTTPClient.connected { c with tcpTimeout := timeout } = r at hconnected
  obtain ⟨up, d⟩ := r
  dsimp only at hconnected ⊢
  split
  · exact (setup_setLink _ _).trans hconnected
  · exact hconnected

theorem setup_lateConnected {link : Link} {reactions : List Reaction} {d : HTTPClient}
    (h : c.lateConnected link reactions = some d) : d.setup = c.setup := by
  unfold lateConnected at h
  split at h
  · obtain rfl := Option.some.inj h
    rfl
  · cases h

end HTTPClient

/-! ## The machine -/

open HTTPClient

/-- **What a request has sent**: the size of its body, its header block if it
got that far, and the bytes the connection took of it if it is through with
sending. -/
structure SentRequest where
  size : ℕ
  block : Option WString
  bytes : Option (List UInt8)
  deriving DecidableEq, Repr

/-- **What an application calls**, and the callback of an attempt that was
given up on. `GET` and `POST` are `sendRequest` with these types. -/
inductive ClientCall where
  | begin (url : WString)
  | beginHost (host : WString) (port : UInt16) (url : WString)
  | addHeader (name value : WString) (first : Bool)
  | setReuse (reuse : Bool)
  | setUserAgent (userAgent : WString)
  | setUseHTTP10 (useHTTP10 : Bool)
  | setTimeout (timeout : UInt16)
  | collectHeaders (headerKeys : List WString)
  | sendRequest (answer : Answer) (type : WString) (payload : List UInt8) (turns : ℕ)
  | sendRequestStream (answer : Answer) (type : WString) (stream : Option Source) (size : ℕ)
      (ram : List UInt8) (turns : ℕ)
  | writeToStream (stream : Option Sink) (turns : ℕ)
  | getString (turns : ℕ)
  | end
  | lateConnected (link : Link) (reactions : List Reaction)
  deriving DecidableEq

/-- **A client and what it has sent.** The client is there between calls, and
`announced` says that a request has announced a body since the last `begin`. -/
structure ClientHistory where
  client : Option HTTPClient
  announced : Bool
  requests : List SentRequest
  deriving DecidableEq

namespace ClientHistory

/-- A client as constructed. -/
def init : ClientHistory := ⟨some HTTPClient.init, false, []⟩

/-- The client after a call that sends nothing. -/
def after (h : ClientHistory) (client : Option HTTPClient) : ClientHistory :=
  { h with client := client }

/-- A `begin`. -/
def begun (h : ClientHistory) (c : HTTPClient) : ClientHistory :=
  { h with client := some c, announced := false }

/-- What the connection has taken since `connect` found or made it. -/
def taken (c : HTTPClient) (answer : Answer) (d : HTTPClient) : List UInt8 :=
  d.sent.drop (c.connect answer).2.sent.length

/-- A request. -/
def request (h : ClientHistory) (c : HTTPClient) (answer : Answer) (type : WString) (size : ℕ)
    (client : Option HTTPClient) (sent : Option HTTPClient) : ClientHistory :=
  ⟨client, h.announced || ((c.connect answer).1 && decide (0 < size)),
    h.requests ++ [⟨size, c.headerBlock answer type size, sent.map (taken c answer)⟩]⟩

/-- One call. -/
def stepClient (h : ClientHistory) (c : HTTPClient) : ClientCall → Option ClientHistory
  | .begin url => some (h.begun (c.begin url))
  | .beginHost host port url => some (h.begun (c.beginHost host port url))
  | .addHeader name value first => some (h.after (c.addHeader name value first))
  | .setReuse reuse => some (h.after (c.setReuse reuse))
  | .setUserAgent userAgent => some (h.after (c.setUserAgent userAgent))
  | .setUseHTTP10 useHTTP10 => some (h.after (c.setUseHTTP10 useHTTP10))
  | .setTimeout timeout => some (h.after (c.setTimeout timeout))
  | .collectHeaders headerKeys => some (h.after (c.collectHeaders headerKeys))
  | .sendRequest answer type payload turns =>
    some (h.request c answer type payload.length
      ((c.sendRequest answer type payload turns).map Prod.snd)
      (c.sendAll answer type payload).2)
  | .sendRequestStream answer type (some stream) size ram turns =>
    some (h.request c answer type size
      ((c.sendRequestStream answer type (some stream) size ram turns).map (fun r => r.2.2))
      ((c.sendStream answer type stream size ram turns).map (fun r => r.2.2)))
  | .sendRequestStream answer type none size ram turns =>
    some (h.after ((c.sendRequestStream answer type none size ram turns).map (fun r => r.2.2)))
  | .writeToStream stream turns =>
      some (h.after ((c.writeToStream stream turns).map (fun r => r.2.2)))
  | .getString turns => some (h.after ((c.getString turns).map Prod.snd))
  | .end => some (h.after c.end)
  | .lateConnected link reactions =>
      (c.lateConnected link reactions).map (fun d => h.after (some d))

/-- One call on a client that is there. -/
def step (h : ClientHistory) (e : ClientCall) : Option ClientHistory :=
  h.client.bind (fun c => h.stepClient c e)

/-- The client as a machine. -/
def machine : Machine ClientHistory ClientCall := ⟨step⟩

/-! ## What a call does -/

/-- **What a call does** to a history with the client `c`: most of them send
nothing and leave the setup as it is. -/
inductive Effect (h : ClientHistory) (c : HTTPClient) : ClientCall → ClientHistory → Prop where
  | begin (url : WString) : Effect h c (.begin url) (h.begun (c.begin url))
  | beginHost (host : WString) (port : UInt16) (url : WString) :
    Effect h c (.beginHost host port url) (h.begun (c.beginHost host port url))
  | addHeader (name value : WString) (first : Bool) :
    Effect h c (.addHeader name value first) (h.after (c.addHeader name value first))
  | setUserAgent (userAgent : WString) :
    Effect h c (.setUserAgent userAgent) (h.after (c.setUserAgent userAgent))
  | setUseHTTP10 (useHTTP10 : Bool) :
    Effect h c (.setUseHTTP10 useHTTP10) (h.after (c.setUseHTTP10 useHTTP10))
  | sendRequest (answer : Answer) (type : WString) (payload : List UInt8) (turns : ℕ)
      (client sent : Option HTTPClient)
      (hsetup : ∀ d ∈ client, d.setup = (c.ready answer payload.length).setup) :
    Effect h c (.sendRequest answer type payload turns)
    (h.request c answer type payload.length client sent)
  | sendRequestStream (answer : Answer) (type : WString) (stream : Source) (size : ℕ)
      (ram : List UInt8)
      (turns : ℕ) (client sent : Option HTTPClient)
      (hsetup : ∀ d ∈ client, d.setup = (c.ready answer size).setup) :
    Effect h c (.sendRequestStream answer type stream size ram turns)
    (h.request c answer type size client sent)
  | keep (e : ClientCall) (client : Option HTTPClient) (he : ∀ url, e ≠ .begin url)
      (hsetup : ∀ d ∈ client, d.setup = c.setup) : Effect h c e (h.after client)

variable {h t : ClientHistory} {e : ClientCall}

theorem effect_of_step (hstep : h.step e = some t) : ∃ c ∈ h.client, Effect h c e t := by
  obtain ⟨c, hc, hstep⟩ := Option.bind_eq_some_iff.mp hstep
  refine ⟨c, hc, ?_⟩
  have hone : ∀ {d : HTTPClient}, d.setup = c.setup → ∀ x ∈ some d, x.setup = c.setup :=
    fun hd x hx => by
    obtain rfl := Option.some.inj hx
    exact hd
  cases e with
  | begin url =>
    obtain rfl := Option.some.inj hstep
    exact .begin url
  | beginHost host port url =>
    obtain rfl := Option.some.inj hstep
    exact .beginHost host port url
  | addHeader name value first =>
    obtain rfl := Option.some.inj hstep
    exact .addHeader name value first
  | setUserAgent userAgent =>
    obtain rfl := Option.some.inj hstep
    exact .setUserAgent userAgent
  | setUseHTTP10 useHTTP10 =>
    obtain rfl := Option.some.inj hstep
    exact .setUseHTTP10 useHTTP10
  | sendRequest answer type payload turns =>
    obtain rfl := Option.some.inj hstep
    refine .sendRequest answer type payload turns _ _ fun d hd => ?_
    obtain ⟨r, hr, rfl⟩ := Option.map_eq_some_iff.mp hd
    exact c.setup_sendRequest answer type payload turns r hr
  | setReuse reuse =>
    obtain rfl := Option.some.inj hstep
    exact .keep _ _ nofun (hone rfl)
  | setTimeout timeout =>
    obtain rfl := Option.some.inj hstep
    exact .keep _ _ nofun (hone (c.setup_setTimeout timeout))
  | collectHeaders headerKeys =>
    obtain rfl := Option.some.inj hstep
    exact .keep _ _ nofun (hone rfl)
  | sendRequestStream answer type stream size ram turns =>
    cases stream with
    | none =>
      obtain rfl := Option.some.inj hstep
      refine .keep _ _ nofun fun d hd => ?_
      obtain ⟨r, hr, rfl⟩ := Option.map_eq_some_iff.mp hd
      rw [Fueled.eq_of_pure hr]
      exact c.setup_returnError errorNoStream
    | some stream =>
      obtain rfl := Option.some.inj hstep
      refine .sendRequestStream answer type stream size ram turns _ _ fun d hd => ?_
      obtain ⟨r, hr, rfl⟩ := Option.map_eq_some_iff.mp hd
      exact c.setup_sendRequestStream answer type stream size ram turns r hr
  | writeToStream stream turns =>
    obtain rfl := Option.some.inj hstep
    refine .keep _ _ nofun fun d hd => ?_
    obtain ⟨r, hr, rfl⟩ := Option.map_eq_some_iff.mp hd
    exact c.setup_writeToStream stream turns r hr
  | getString turns =>
    obtain rfl := Option.some.inj hstep
    refine .keep _ _ nofun fun d hd => ?_
    obtain ⟨r, hr, rfl⟩ := Option.map_eq_some_iff.mp hd
    obtain ⟨r', hr', hr⟩ := Fueled.exists_of_bind hr
    rw [Fueled.eq_of_pure hr]
    exact c.setup_writeToStream _ turns r' hr'
  | «end» =>
    obtain rfl := Option.some.inj hstep
    exact .keep _ _ nofun (hone c.setup_end)
  | lateConnected link reactions =>
    obtain ⟨d, hd, rfl⟩ := Option.map_eq_some_iff.mp hstep
    exact .keep _ _ nofun (hone (c.setup_lateConnected hd))

end ClientHistory
