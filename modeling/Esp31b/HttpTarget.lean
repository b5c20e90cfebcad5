import Esp31b.HttpRequest
import Esp31b.Machine

/-!
# Which server a request goes to

`begin` sets `_host` and `_port`; the connection is in `_tcp` and stays there
over `end` when it is to be reused, and when `end` is not called at all.
`connect` takes a connected `_tcp` as it is. So what a request is meant for
and what it is sent to are two things that nothing compares.

The machine below has every call of the application and the one thing that
happens to a client between calls, the callback of a connection attempt that
`WiFiClient::connect` gave up on. A callback that comes while a call runs
finds the same as one before or after it: a call looks at a `_client` that is
null once, or gives up, or replaces the `WiFiClient`.

`Session.onTarget_of_run` is what can be said: requests go to their target as
long as the target is not changed under a connection that is up.
`Session.not_onTarget_other_server` is a run where it is.
-/

namespace HTTPClient

/-! ## What the functions leave of a connection -/

/-- **The connection, if any, is to the target.** -/
def Bound (c : HTTPClient) : Prop :=
  ∀ k, c.connection = some k → k.host = c.host ∧ k.port = c.port

/-- **A connection that is up is to the target.** -/
def UpBound (c : HTTPClient) : Prop := c.connected.1 = true → Bound c

/-- **The target stays, and so does the peer**, unless the connection is
dropped. -/
structure Keeps (c d : HTTPClient) : Prop where
  host : d.host = c.host
  port : d.port = c.port
  peer : ∀ k, d.connection = some k → ∃ k', c.connection = some k' ∧
    k.host = k'.host ∧ k.port = k'.port

variable {c d e : HTTPClient}

theorem Keeps.refl (c : HTTPClient) : Keeps c c := ⟨rfl, rfl, fun k hk => ⟨k, hk, rfl, rfl⟩⟩

theorem Keeps.trans (h : Keeps c d) (h' : Keeps d e) : Keeps c e where
  host := h'.host.trans h.host
  port := h'.port.trans h.port
  peer k hk := by
    obtain ⟨k₁, hk₁, hhost₁, hport₁⟩ := h'.peer k hk
    obtain ⟨k₂, hk₂, hhost₂, hport₂⟩ := h.peer k₁ hk₁
    exact ⟨k₂, hk₂, hhost₁.trans hhost₂, hport₁.trans hport₂⟩

/-- **What is bound stays bound.** -/
theorem Keeps.bound (h : Keeps c d) (hc : Bound c) : Bound d := by
  intro k hk
  obtain ⟨k', hk', hhost, hport⟩ := h.peer k hk
  obtain ⟨hhost', hport'⟩ := hc k' hk'
  exact ⟨by rw [hhost, hhost', h.host], by rw [hport, hport', h.port]⟩

theorem Bound.upBound (h : Bound c) : UpBound c := fun _ => h

/-- The connection goes on, to the same peer. -/
theorem keeps_setConnection {k k' : Connection} (hk : c.connection = some k)
    (hhost : k'.host = k.host)
    (hport : k'.port = k.port) : Keeps c (c.setConnection k') where
  host := rfl
  port := rfl
  peer j hj := by
    obtain rfl : k' = j := by simpa [connection, setConnection] using hj
    exact ⟨k, hk, hhost, hport⟩

theorem keeps_setLink (c : HTTPClient) (l : Link) : Keeps c (c.setLink l) := by
  unfold setLink
  split
  · rename_i k hk
    exact keeps_setConnection hk rfl rfl
  · exact Keeps.refl c

theorem keeps_stop (c : HTTPClient) : Keeps c c.stop :=
  ⟨rfl, rfl, fun k hk => by simp [connection, stop] at hk⟩

theorem keeps_connected (c : HTTPClient) : Keeps c c.connected.2 := by
  unfold connected
  split
  · exact Keeps.refl c
  · rename_i k hk
    exact keeps_setConnection hk rfl rfl

theorem keeps_returnError (c : HTTPClient) (error : ℤ) : Keeps c (c.returnError error).2 := by
  unfold returnError
  split
  · dsimp only
    split
    · exact c.keeps_connected.trans (keeps_stop _)
    · exact c.keeps_connected
  · exact Keeps.refl c

theorem keeps_end (c : HTTPClient) : Keeps c c.end := by
  unfold HTTPClient.end
  dsimp only
  split_ifs
  · exact c.keeps_connected
  · exact c.keeps_connected.trans (keeps_stop _)
  · exact c.keeps_connected

theorem keeps_finish (c : HTTPClient) (r : Except ℤ ℤ) : Keeps c (c.finish r).2 := by
  cases r with
  | error e => exact c.keeps_returnError e
  | ok ret => exact c.keeps_end

/-- A write goes out on the connection there is. -/
theorem keeps_tcpWrite (c : HTTPClient) (buf : List UInt8) : Keeps c (c.tcpWrite buf).2 := by
  unfold tcpWrite
  split
  · rename_i k hk
    have hwrite : (k.write buf).2.host = k.host ∧ (k.write buf).2.port = k.port := by
      unfold Connection.write
      split
      · exact ⟨rfl, rfl⟩
      · split
        · exact ⟨rfl, rfl⟩
        · exact ⟨rfl, rfl⟩
    exact keeps_setConnection hk hwrite.1 hwrite.2
  · exact Keeps.refl c

theorem keeps_addHeader (c : HTTPClient) (name value : WString) (first : Bool) :
    Keeps c (c.addHeader name value first) := by
  obtain ⟨headers, heq⟩ := c.addHeader_frame name value first
  rw [heq]
  exact ⟨rfl, rfl, fun k hk => ⟨k, hk, rfl, rfl⟩⟩

theorem keeps_sendHeader (c : HTTPClient) (type : WString) : Keeps c (c.sendHeader type).2 := by
  unfold sendHeader
  dsimp only
  split
  · exact c.keeps_connected.trans (keeps_tcpWrite _ _)
  · exact c.keeps_connected

/-! ## A connection that is down -/

/-- A connection that is found down is not up again. -/
theorem linkConnected_twice {l : Link} (h : (linkConnected l).1 = false) :
    (linkConnected (linkConnected l).2).1 = false := by
  have hpoll : l.poll.up = false ∧ l.poll.rx = [] := by
    by_contra hne
    have hup : l.connected = (true, l.poll) := by
      by_cases hup : l.poll.up = false
      · simp [Link.connected, hup, (not_and.mp hne) hup]
      · simp [Link.connected, hup]
    simp [linkConnected, hup] at h
  have hdown : l.poll.fin = true ∧ l.poll.sched = [] := by simpa [Link.up] using hpoll.1
  have hstill : l.poll.poll = l.poll := by
    rw [Link.poll.eq_1 l.poll, hdown.2]
  have heq : linkConnected l = (false, l.poll) := by
    simp [linkConnected, Link.connected, Link.available, hpoll.1, hpoll.2, hstill]
  rw [heq]
  simp [linkConnected, Link.connected, Link.available, hpoll.1, hpoll.2, hstill]

theorem connected_of_none (h : c.connection = none) : c.connected = (false, c) := by
  rw [connected, h]

theorem connected_of_some {k : Connection} (h : c.connection = some k) :
    c.connected = ((linkConnected k.link).1,
      c.setConnection { k with link := (linkConnected k.link).2 }) := by
  rw [connected, h]

/-- Looking at a connection does not bring it up. -/
theorem connected_twice (h : c.connected.1 = false) : c.connected.2.connected.1 = false := by
  cases hk : c.connection with
  | none => rwa [connected_of_none hk]
  | some k =>
    rw [connected_of_some hk] at h ⊢
    rw [connected_of_some (k := { k with link := (linkConnected k.link).2 }) rfl]
    exact linkConnected_twice h

theorem upBound_connected (h : UpBound c) : UpBound c.connected.2 := by
  intro hup
  refine c.keeps_connected.bound (h ?_)
  by_contra hdown
  rw [connected_twice (Bool.eq_false_iff.mpr hdown)] at hup
  cases hup

theorem upBound_of_none (h : c.connection = none) : UpBound c := fun _ k hk => by
  rw [h] at hk
  cases hk

/-- An error is returned over a connection that is left as it is or dropped. -/
theorem upBound_returnError (h : UpBound c) (error : ℤ) : UpBound (c.returnError error).2 := by
  unfold returnError
  split
  · dsimp only
    split
    · exact upBound_of_none rfl
    · exact upBound_connected h
  · exact h

theorem upBound_end (h : UpBound c) : UpBound c.end := by
  unfold HTTPClient.end
  dsimp only
  split_ifs
  · exact upBound_connected h
  · exact upBound_of_none rfl
  · exact upBound_connected h

/-! ## The calls -/

/-- **`connect` leaves a connection to the target**, or none. -/
theorem bound_connect (h : UpBound c) (answer : Answer) : Bound (c.connect answer).2 := by
  unfold connect
  dsimp only
  split
  · rename_i hup
    exact c.keeps_connected.bound (h hup)
  · cases answer with
    | opened link reactions =>
      refine (keeps_connected _).bound (fun k hk => ?_)
      obtain rfl := Option.some.inj hk
      exact ⟨rfl, rfl⟩
    | refused => exact fun k hk => by cases hk
    | unanswered => exact fun k hk => by cases hk

theorem bound_sendHead (h : UpBound c) (answer : Answer) (type : WString) (size : ℕ) :
    Bound (c.sendHead answer type size).2 := by
  have hconnect := bound_connect h answer
  have hsend : ∀ {d : HTTPClient}, Bound d → Bound (d.sendHeader type).2 :=
    fun hd => (keeps_sendHeader _ _).bound hd
  have hadd := (keeps_addHeader (c.connect answer).2 (ascii "Content-Length")
    (ascii (toString size)) false).bound hconnect
  unfold sendHead
  dsimp only
  split_ifs
  · exact hconnect
  · exact hsend hadd
  · exact hsend hadd
  · exact hsend hconnect
  · exact hsend hconnect

/-- The header of the response is read over the same connection. -/
theorem keeps_handleHeaderResponse {n : ℕ} {r : ℤ × HTTPClient}
    (h : c.handleHeaderResponse n = some r) : Keeps c r.2 := by
  have hkeeps := c.keeps_connected
  unfold handleHeaderResponse at h
  generalize c.connected = p at h hkeeps
  obtain ⟨up, d⟩ := p
  dsimp only at h hkeeps
  cases up with
  | false =>
    obtain rfl := Fueled.eq_of_pure h
    exact hkeeps
  | true =>
    cases hk : d.connection with
    | none =>
      rw [hk] at h
      obtain rfl := Fueled.eq_of_pure h
      exact hkeeps
    | some k =>
      rw [hk] at h
      obtain ⟨⟨found, s, link⟩, -, h⟩ := Fueled.exists_of_bind h
      obtain rfl := Fueled.eq_of_pure h
      have hlink := hkeeps.trans (keeps_setLink d link)
      exact ⟨hlink.host, hlink.port, hlink.peer⟩

theorem keeps_respond {n : ℕ} {r : ℤ × HTTPClient}
    (h : (c.handleHeaderResponse >>= fun r => pure (r.2.returnError r.1) : Fueled _) n =
      some r) :
    Keeps c r.2 := by
  obtain ⟨⟨code, d⟩, hd, h⟩ := Fueled.exists_of_bind h
  obtain rfl := Fueled.eq_of_pure h
  exact (keeps_handleHeaderResponse hd).trans (keeps_returnError _ _)

/-- **`sendRequest` leaves a connection to the target**, or none. -/
theorem bound_sendRequest {answer : Answer} {type : WString} {payload : List UInt8} {n : ℕ}
    {r : ℤ × HTTPClient} (h : UpBound c) (hr : c.sendRequest answer type payload n = some r) :
    Bound r.2 := by
  have hhead := bound_sendHead h answer type payload.length
  unfold sendRequest at hr
  generalize c.sendHead answer type payload.length = head at hr hhead
  obtain ⟨ok, d⟩ := head
  cases ok with
  | error e =>
    obtain rfl := Fueled.eq_of_pure hr
    exact (keeps_returnError _ _).bound hhead
  | ok u =>
    have hwrite : Keeps d (if 0 < payload.length then d.tcpWrite payload else (0, d)).2 := by
      split
      · exact keeps_tcpWrite _ _
      · exact Keeps.refl d
    dsimp only at hr
    generalize (if 0 < payload.length then d.tcpWrite payload else (0, d)) = w at hr hwrite
    obtain ⟨m, d'⟩ := w
    dsimp only at hr
    split at hr
    · obtain rfl := Fueled.eq_of_pure hr
      exact (hwrite.trans (keeps_returnError _ _)).bound hhead
    · exact (hwrite.trans (keeps_respond hr)).bound hhead

/-- The body of a request goes out over the same connection. -/
theorem keeps_sendBlock (buffSize : ℕ) (s : UploadBlock) (sizeAvailable : ℤ) :
    Keeps s.client ((sendBlock buffSize s sizeAvailable).elim id Prod.snd).client := by
  unfold sendBlock
  dsimp only
  split_ifs
  all_goals
    first
    | exact keeps_tcpWrite _ _
    | exact (keeps_tcpWrite _ _).trans (keeps_tcpWrite _ _)

theorem keeps_sendTurn (buffSize : ℕ) (s : UploadBlock) :
    Keeps s.client ((sendTurn buffSize s).elim id Prod.snd).client := by
  have hkeeps := s.client.keeps_connected
  unfold sendTurn
  dsimp only
  split_ifs
  · exact hkeeps
  · exact hkeeps.trans (keeps_sendBlock buffSize ⟨_, _, _, _, _⟩ _)
  · exact hkeeps
  · exact hkeeps

theorem keeps_sendLoop {buffSize n : ℕ} {s : UploadBlock} {r : Bool × UploadBlock}
    (h : Fueled.loop (fun s => pure (sendTurn buffSize s)) s n = some r) :
    Keeps s.client r.2.client := by
  refine Fueled.loop_sound (fun t : UploadBlock => Keeps s.client t.client)
    (fun r => Keeps s.client r.2.client) (fun t _ u ht hu => ?_) (fun t _ u ht hu => ?_)
    (Keeps.refl _) h
  · have hturn := keeps_sendTurn buffSize t
    rw [← Fueled.eq_of_pure hu] at hturn
    exact ht.trans hturn
  · have hturn := keeps_sendTurn buffSize t
    rw [← Fueled.eq_of_pure hu] at hturn
    exact ht.trans hturn

/-- The same for a body from a stream. -/
theorem bound_sendRequestStream {answer : Answer} {type : WString}
    {stream : Source} {size n : ℕ}
    {ram : List UInt8} {r : ℤ × Option Source × HTTPClient} (h : UpBound c)
    (hr : c.sendRequestStream answer type (some stream) size ram n = some r) : Bound r.2.2 := by
  have hhead := bound_sendHead h answer type size
  unfold sendRequestStream at hr
  dsimp only at hr
  generalize c.sendHead answer type size = head at hr hhead
  obtain ⟨ok, d⟩ := head
  cases ok with
  | error e =>
    obtain rfl := Fueled.eq_of_pure hr
    exact (keeps_returnError _ _).bound hhead
  | ok u =>
    obtain ⟨⟨ok, s⟩, hloop, hr⟩ := Fueled.exists_of_bind hr
    have hs := keeps_sendLoop hloop
    dsimp only at hr
    split at hr
    · obtain rfl := Fueled.eq_of_pure hr
      exact (hs.trans (keeps_returnError _ _)).bound hhead
    · obtain ⟨⟨code, d'⟩, hd', hr⟩ := Fueled.exists_of_bind hr
      obtain rfl := Fueled.eq_of_pure hr
      exact ((hs.trans (keeps_handleHeaderResponse hd')).trans (keeps_returnError _ _)).bound
        hhead

/-- **`writeToStream` reads over the connection there is**, and ends it or
leaves it. -/
theorem upBound_writeToStream {stream : Option Sink} {n : ℕ} {r : ℤ × Option Sink × HTTPClient}
    (h : UpBound c) (hr : c.writeToStream stream n = some r) : UpBound r.2.2 := by
  unfold writeToStream at hr
  cases stream with
  | none =>
    rw [Fueled.eq_of_pure hr]
    exact upBound_returnError h errorNoStream
  | some sink =>
    have hdown := upBound_connected h
    have hup : c.connected.1 = true → Bound c.connected.2 :=
      fun hup => c.keeps_connected.bound (h hup)
    dsimp only at hr
    generalize c.connected = p at hr hdown hup
    obtain ⟨up, d⟩ := p
    dsimp only at hr hdown hup
    cases up with
    | false =>
      obtain rfl := Fueled.eq_of_pure hr
      exact upBound_returnError hdown _
    | true =>
      cases hk : d.connection with
      | none =>
        rw [hk] at hr
        obtain rfl := Fueled.eq_of_pure hr
        exact upBound_returnError hdown _
      | some k =>
        rw [hk] at hr
        refine Bound.upBound ?_
        cases hte : d.transferEncoding with
        | identity =>
          rw [hte] at hr
          obtain ⟨⟨ret, link, sink'⟩, -, hr⟩ := Fueled.exists_of_bind hr
          obtain rfl := Fueled.eq_of_pure hr
          exact ((keeps_setLink d link).trans (keeps_finish _ _)).bound (hup rfl)
        | chunked =>
          rw [hte] at hr
          obtain ⟨⟨res, s⟩, -, hr⟩ := Fueled.exists_of_bind hr
          obtain rfl := Fueled.eq_of_pure hr
          have hlink := keeps_setLink d s.link
          have hsize : Keeps d { d.setLink s.link with size := s.total } :=
            ⟨hlink.host, hlink.port, hlink.peer⟩
          exact (hsize.trans (keeps_finish _ _)).bound (hup rfl)

/-- A target that stays, or that is changed while nothing is connected. -/
theorem upBound_retarget (h : UpBound c) (htcp : d.tcp = c.tcp)
    (hkept : c.connected.1 = true → d.host = c.host ∧ d.port = c.port) : UpBound d := by
  have hconn : d.connection = c.connection := by rw [connection, htcp, connection]
  intro hup
  have hup' : c.connected.1 = true := by
    cases hk : c.connection with
    | none =>
      rw [connected_of_none (hconn.trans hk)] at hup
      cases hup
    | some k =>
      rw [connected_of_some (hconn.trans hk)] at hup
      rwa [connected_of_some hk]
  obtain ⟨hhost, hport⟩ := hkept hup'
  intro k hk
  rw [hhost, hport]
  exact h hup' k (hconn ▸ hk)

theorem begin_tcp (c : HTTPClient) (url : WString) : (c.begin url).tcp = c.tcp := by
  unfold begin
  dsimp only
  split_ifs <;> rfl

/-- The connection a request was sent on, with all that was sent on it. -/
def requestOn (c : HTTPClient) : List (WString × UInt16 × Connection) :=
  c.connection.toList.map (fun k => (c.host, c.port, k))

end HTTPClient

/-! ## Sessions -/

open HTTPClient

/-- **A client and the requests it has sent**: for each, `_host` and `_port`
at that time and the connection `sendRequest` had when it had sent the
header. The client is there between calls; a call that has not returned
after so many turns of its loops is one that is still running. -/
structure Session where
  client : Option HTTPClient
  requests : List (WString × UInt16 × Connection)
  deriving DecidableEq

/-- What happens to a client. -/
inductive ClientEvent where
  | begin (url : WString)
  | beginHost (host : WString) (port : UInt16) (url : WString)
  | setReuse (reuse : Bool)
  | sendRequest (answer : Answer) (type : WString) (payload : List UInt8) (turns : ℕ)
  | sendRequestStream (answer : Answer) (type : WString) (stream : Option Source) (size : ℕ)
      (ram : List UInt8) (turns : ℕ)
  | writeToStream (stream : Option Sink) (turns : ℕ)
  | end
  /-- The callback of an attempt that was given up on. -/
  | lateConnected (link : Link) (reactions : List Reaction)
  deriving DecidableEq

namespace Session

/-- A client as constructed. -/
def init : Session := ⟨some HTTPClient.init, []⟩

/-- The client after a call. -/
def after (s : Session) (client : Option HTTPClient) : Session := { s with client := client }

/-- One event of a client between calls. -/
def stepClient (s : Session) (c : HTTPClient) : ClientEvent → Option Session
  | .begin url => some (s.after (c.begin url))
  | .beginHost host port url => some (s.after (c.beginHost host port url))
  | .setReuse reuse => some (s.after (c.setReuse reuse))
  | .sendRequest answer type payload turns =>
    some ⟨(c.sendRequest answer type payload turns).map Prod.snd,
      s.requests ++ (c.sendHead answer type payload.length).2.requestOn⟩
  | .sendRequestStream answer type (some stream) size ram turns =>
    some ⟨(c.sendRequestStream answer type (some stream) size ram turns).map (fun r => r.2.2),
      s.requests ++ (c.sendHead answer type size).2.requestOn⟩
  | .sendRequestStream answer type none size ram turns =>
    some (s.after ((c.sendRequestStream answer type none size ram turns).map (fun r => r.2.2)))
  | .writeToStream stream turns =>
      some (s.after ((c.writeToStream stream turns).map (fun r => r.2.2)))
  | .end => some (s.after c.end)
  | .lateConnected link reactions =>
      (c.lateConnected link reactions).map (fun d => s.after (some d))

/-- One event. -/
def step (s : Session) (e : ClientEvent) : Option Session :=
  s.client.bind (fun c => s.stepClient c e)

/-- The client as a machine. -/
def machine : Machine Session ClientEvent := ⟨step⟩

/-- **Every request was sent on a connection to its target.** -/
def OnTarget (s : Session) : Prop :=
  ∀ r ∈ s.requests, r.2.2.host = r.1 ∧ r.2.2.port = r.2.1

instance decidableOnTarget (s : Session) : Decidable s.OnTarget :=
  inferInstanceAs (Decidable (∀ r ∈ s.requests, _))

/-- **The target is not changed under a connection**: a `begin` that sets
another `_host` or `_port` finds the client not connected, and an attempt
that was given up on succeeds only for the target there is now. -/
def KeepsTargetOf (c : HTTPClient) : ClientEvent → Prop
  | .begin url =>
    c.connected.1 = true → (c.begin url).host = c.host ∧ (c.begin url).port = c.port
  | .beginHost host port url => c.connected.1 = true →
    (c.beginHost host port url).host = c.host ∧ (c.beginHost host port url).port = c.port
  | .lateConnected _ _ => ∀ peer ∈ c.tcp.bind WiFiClient.attempt, peer = (c.host, c.port)
  | _ => True

/-- The same for the client of a session. -/
def KeepsTarget (s : Session) (e : ClientEvent) : Prop := ∀ c ∈ s.client, KeepsTargetOf c e

instance decidableKeepsTargetOf (c : HTTPClient) (e : ClientEvent) :
    Decidable (KeepsTargetOf c e) :=
  match e with
  | .begin _ => inferInstanceAs (Decidable (_ → _))
  | .beginHost _ _ _ => inferInstanceAs (Decidable (_ → _))
  | .lateConnected _ _ =>
      inferInstanceAs (Decidable (∀ peer ∈ c.tcp.bind WiFiClient.attempt, _))
  | .setReuse _ => inferInstanceAs (Decidable True)
  | .sendRequest _ _ _ _ => inferInstanceAs (Decidable True)
  | .sendRequestStream _ _ _ _ _ _ => inferInstanceAs (Decidable True)
  | .writeToStream _ _ => inferInstanceAs (Decidable True)
  | .end => inferInstanceAs (Decidable True)

instance decidableKeepsTarget (s : Session) (e : ClientEvent) : Decidable (s.KeepsTarget e) :=
  inferInstanceAs (Decidable (∀ c ∈ s.client, KeepsTargetOf c e))

/-- What every state of a run has: the requests were on target, and the next
one will be. -/
def Inv (s : Session) : Prop := s.OnTarget ∧ ∀ c ∈ s.client, c.UpBound

theorem Inv.after {s : Session} (h : s.Inv) {client : Option HTTPClient}
    (hclient : ∀ c ∈ client, c.UpBound) : (s.after client).Inv :=
  ⟨h.1, hclient⟩

/-- A request sent with a connection to the target. -/
theorem Inv.request {s : Session} (h : s.Inv) {client : Option HTTPClient} {sent : HTTPClient}
    (hsent : sent.Bound) (hclient : ∀ c ∈ client, c.Bound) :
    Inv ⟨client, s.requests ++ sent.requestOn⟩ := by
  refine ⟨fun r hr => ?_, fun c hc => (hclient c hc).upBound⟩
  rcases List.mem_append.mp hr with hr | hr
  · exact h.1 r hr
  · obtain ⟨k, hk, rfl⟩ := List.mem_map.mp hr
    exact hsent k (by simpa using hk)

/-- **One event.** -/
theorem Inv.step {s t : Session} {e : ClientEvent} (h : s.Inv) (hkeeps : s.KeepsTarget e)
    (hstep : s.step e = some t) : t.Inv := by
  obtain ⟨c, hc, hstep⟩ := Option.bind_eq_some_iff.mp hstep
  have hup := h.2 c hc
  have hcond := hkeeps c hc
  have hone : ∀ {d : HTTPClient}, d.UpBound → ∀ c ∈ some d, c.UpBound := fun hd c hc => by
    obtain rfl := Option.some.inj hc
    exact hd
  cases e with
  | begin url =>
    obtain rfl := Option.some.inj hstep
    exact h.after (hone (upBound_retarget hup (begin_tcp c url) hcond))
  | beginHost host port url =>
    obtain rfl := Option.some.inj hstep
    exact h.after (hone (upBound_retarget hup rfl hcond))
  | setReuse reuse =>
    obtain rfl := Option.some.inj hstep
    exact h.after (hone (upBound_retarget hup rfl (fun _ => ⟨rfl, rfl⟩)))
  | sendRequest answer type payload turns =>
    obtain rfl := Option.some.inj hstep
    refine h.request (bound_sendHead hup _ _ _) (fun d hd => ?_)
    obtain ⟨r, hr, rfl⟩ := Option.map_eq_some_iff.mp hd
    exact bound_sendRequest hup hr
  | sendRequestStream answer type stream size ram turns =>
    cases stream with
    | none =>
      obtain rfl := Option.some.inj hstep
      refine h.after (fun d hd => ?_)
      obtain ⟨r, hr, rfl⟩ := Option.map_eq_some_iff.mp hd
      rw [Fueled.eq_of_pure hr]
      exact upBound_returnError hup errorNoStream
    | some stream =>
      obtain rfl := Option.some.inj hstep
      refine h.request (bound_sendHead hup _ _ _) (fun d hd => ?_)
      obtain ⟨r, hr, rfl⟩ := Option.map_eq_some_iff.mp hd
      exact bound_sendRequestStream hup hr
  | writeToStream stream turns =>
    obtain rfl := Option.some.inj hstep
    refine h.after (fun d hd => ?_)
    obtain ⟨r, hr, rfl⟩ := Option.map_eq_some_iff.mp hd
    exact upBound_writeToStream hup hr
  | «end» =>
    obtain rfl := Option.some.inj hstep
    exact h.after (hone (upBound_end hup))
  | lateConnected link reactions =>
    obtain ⟨d, hd, rfl⟩ := Option.map_eq_some_iff.mp hstep
    refine h.after (hone (Bound.upBound ?_))
    unfold HTTPClient.lateConnected at hd
    split at hd
    · rename_i client host port htcp
      obtain rfl := Option.some.inj hd
      have hpeer : (host, port) = (c.host, c.port) := hcond _ (by rw [htcp]; rfl)
      intro k hk
      obtain rfl := Option.some.inj hk
      exact Prod.mk.inj hpeer
    · cases hd

/-- **Requests go to their target in every run that keeps the target** while
there is a connection. -/
theorem onTarget_of_run {es : List ClientEvent} {s : Session}
    (hkeeps : machine.Along KeepsTarget init es) (hrun : machine.run init es = some s) :
    s.OnTarget := by
  have hinit : Inv init := ⟨fun _ hr => by simp [init] at hr, fun c hc => by
    obtain rfl := Option.some.inj hc
    exact upBound_of_none rfl⟩
  exact (Machine.invariant_of_along (fun _ _ _ hs hP hstep => hs.step hP hstep)
    hinit hkeeps hrun).1

/-- A server that answers with an empty body and keeps the connection. -/
def keepAliveReaction : Reaction :=
  ⟨none, [⟨ascii "HTTP/1.1 200 OK\r\n" ++ ascii "Connection: keep-alive\r\n" ++
    ascii "Content-Length: 0\r\n\r\n", 1⟩], false⟩

/-- A request to server `a`, its connection kept for reuse, and then one to
another URL. -/
def reuseEvents (url : WString) : List ClientEvent :=
  [.begin (ascii "http://a/"), .setReuse true,
    .sendRequest (.opened ⟨[], 0, 0, [], false⟩ [keepAliveReaction, keepAliveReaction])
      (ascii "GET") [] 9,
    .end, .begin url, .sendRequest .refused (ascii "GET") [] 9]

/-- The second request is to the same server. -/
theorem onTarget_same_server :
    ∃ s, machine.run init (reuseEvents (ascii "http://a/x")) = some s ∧ s.OnTarget := by
  obtain ⟨hkeeps, hsome⟩ : machine.Along KeepsTarget init (reuseEvents (ascii "http://a/x")) ∧
      (machine.run init (reuseEvents (ascii "http://a/x"))).isSome = true := by
    decide +kernel
  obtain ⟨s, hs⟩ := Option.isSome_iff_exists.mp hsome
  exact ⟨s, hs, onTarget_of_run hkeeps hs⟩

/-- **The second request is to server `b`** and goes to server `a`. -/
theorem not_onTarget_other_server :
    ∃ s, machine.run init (reuseEvents (ascii "http://b/")) = some s ∧ ¬ s.OnTarget ∧
      ∃ r ∈ s.requests, r.1 = ascii "b" ∧ r.2.2.host = ascii "a" ∧
        ascii "Host: b" <:+: r.2.2.sent := by
  have hsent : (machine.run init (reuseEvents (ascii "http://b/"))).any (fun s => ¬ s.OnTarget ∧
      ∃ r ∈ s.requests, r.1 = ascii "b" ∧ r.2.2.host = ascii "a" ∧
        ascii "Host: b" <:+: r.2.2.sent) = true := by
    decide +kernel
  obtain ⟨s, hs, hwrong⟩ := (Option.any_eq_true _ _).mp hsent
  exact ⟨s, hs, of_decide_eq_true hwrong⟩

end Session
