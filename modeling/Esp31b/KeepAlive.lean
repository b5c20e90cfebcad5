import Esp31b.HttpResponse

/-!
# Requests and responses on one connection

With `setReuse(true)` and a server that keeps the connection, a sequence of
requests goes over one connection, and each response is expected to start
where the last one ended. `end` keeps the connection as it is, unread bytes
included, and the next `handleHeaderResponse` starts with those.

A `Round` is what an application does with one request: `begin` in either
form or not at all, the request, reading the body in one of the two ways or
not at all, and `end`. `play` is a sequence of rounds. When every write goes
through whole and every body that is followed by another request is read, or
is empty, each `sendRequest` returns the status of its own response
(`play_pairs`).
-/

namespace HTTPClient

/-! ## Rounds -/

/-- What precedes a request. -/
inductive Target where
  | stay
  | url (url : WString)
  | host (host : WString) (port : UInt16) (url : WString)
  deriving DecidableEq, Repr

/-- How a body is read. -/
inductive Reading where
  | unread
  | writeToStream (sink : Sink)
  | getString
  deriving DecidableEq, Repr

/-- **One request and its response**: how much the writes of its header and of
its payload take, all of it or so many bytes, what arrives of the response when
the header was sent, and what when the payload was. -/
structure Round where
  target : Target
  type : WString
  payload : List UInt8
  headerRoom : Option ℕ
  payloadRoom : Option ℕ
  response : HttpResponse
  early : List Slice
  late : List Slice
  reading : Reading
  deriving DecidableEq, Repr

/-- The client before the request. -/
def aim (c : HTTPClient) : Target → HTTPClient
  | .stay => c
  | .url url => c.begin url
  | .host host port url => c.beginHost host port url

/-- The client after the body was read, or not. -/
def readBody (c : HTTPClient) : Reading → Fueled HTTPClient
  | .unread => pure c
  | .writeToStream sink => do
    let (_, _, c) ← c.writeToStream (some sink)
    return c
  | .getString => do
    let (_, c) ← c.getString
    return c

/-- A round: what `sendRequest` and `getSize` return. -/
def playRound (answer : Answer) (c : HTTPClient) (r : Round) :
    Fueled ((ℤ × ℤ) × HTTPClient) := do
  let (code, c) ← (c.aim r.target).sendRequest answer r.type r.payload
  let size := c.getSize
  let c ← c.readBody r.reading
  return ((code, size), c.end)

/-- Rounds in turn. -/
def play (answer : Answer) : HTTPClient → List Round → Fueled (List (ℤ × ℤ) × HTTPClient)
  | c, [] => pure ([], c)
  | c, r :: rs => do
    let (result, c) ← playRound answer c r
    let (results, c) ← play answer c rs
    return (result :: results, c)

namespace Round

/-- What happens to the writes of the round. -/
def reactions (r : Round) : List Reaction :=
  if r.payload = [] then [⟨r.headerRoom, r.early ++ r.late, false⟩]
  else [⟨r.headerRoom, r.early, false⟩, ⟨r.payloadRoom, r.late, false⟩]

/-- **Every write goes through whole**: it finds room for all of its bytes, and
the acknowledgements its wait counts cover them. -/
def Whole (r : Round) : Prop :=
  r.headerRoom = none ∧ ∀ n ∈ r.payloadRoom, r.payload.length ≤ n

/-- **The server answers**: the well-formed response arrives, and no wait
inside one of its header lines reaches the time-out. -/
structure Answered (r : Round) (timeout : ℕ) : Prop where
  wellFormed : r.response.WellFormed
  spaced : r.response.Spaced
  delivered : (r.early ++ r.late).flatMap Slice.bytes = r.response.bytes
  prompt : LinesPrompt r.response.header
    (fun i => (Link.waitsFrom 0 (r.early ++ r.late)).getD i 0) timeout

/-- **The body is read**, by a stream that takes it. -/
def Read (r : Round) : Prop :=
  match r.reading with
  | .unread => False
  | .writeToStream sink => Accepts sink
  | .getString => True

/-- **Nothing of the body is left**: it is read, or there is none. -/
def Finished (r : Round) : Prop := r.Read ∨ r.reading = .unread ∧ r.response.body = []

end Round

/-! ## An open connection -/

/-- **The client has an open connection** that it wants to keep. -/
structure Open (c : HTTPClient) (l : Link) (rs : List Reaction) : Prop where
  reuse : c.reuse = true
  connection : ∃ k, c.connection = some k ∧ k.link = l ∧ k.reactions = rs
  isOpen : l.fin = false
  timeout : l.timeout = c.tcpTimeout.toNat

variable {c : HTTPClient} {l : Link} {rs : List Reaction}

/-- The connection is found open. -/
theorem Open.connected (h : Open c l rs) :
    ∃ k, c.connection = some k ∧ k.link = l ∧
      c.connected = (true, c.setConnection { k with link := l.poll }) ∧
      Open (c.setConnection { k with link := l.poll }) l.poll rs := by
  obtain ⟨k, hk, rfl, hrs⟩ := h.connection
  refine ⟨k, hk, rfl, ?_, h.reuse, ⟨_, rfl, rfl, hrs⟩, ?_, ?_⟩
  · rw [HTTPClient.connected, hk]
    dsimp only
    rw [linkConnected_eq h.isOpen]
  · exact k.link.took_poll.fin.trans h.isOpen
  · exact k.link.took_poll.timeout.trans h.timeout

/-- **A write goes through**, and the server does what it does. -/
theorem Open.tcpWrite {room : Option ℕ} {sched : List Slice} {buf : List UInt8}
    (hbuf : buf ≠ [])
    (hroom : ∀ n ∈ room, buf.length ≤ n) (h : Open c l (⟨room, sched, false⟩ :: rs)) :
    ∃ d, c.tcpWrite buf = (buf.length, d) ∧ Open d (l.extend sched) rs ∧
      d.tcpTimeout = c.tcpTimeout := by
  obtain ⟨k, hk, rfl, hrs⟩ := h.connection
  have hup : k.link.up = true := by simp [Link.up, h.isOpen]
  have htaken : buf.length ≤ room.getD buf.length := by
    cases room with
    | none => exact le_rfl
    | some n => exact hroom n rfl
  have hwrite : k.write buf = (buf.length, { k with
      sent := k.sent ++ buf, link := k.link.extend sched, reactions := rs }) := by
    unfold Connection.write
    rw [if_neg (by simp [hbuf, hup]), hrs]
    simp [Link.extend, Nat.min_eq_right htaken, List.take_of_length_le htaken]
  refine ⟨c.setConnection (k.write buf).2, ?_, ?_, rfl⟩
  · rw [HTTPClient.tcpWrite, hk]
    dsimp only
    rw [hwrite]
  · rw [hwrite]
    exact ⟨h.reuse, ⟨_, rfl, rfl, rfl⟩, h.isOpen, h.timeout⟩

theorem Open.congr {d : HTTPClient} (h : Open c l rs)
    (htcp : d.tcp = c.tcp) (hreuse : d.reuse = c.reuse)
    (htimeout : d.tcpTimeout = c.tcpTimeout) : Open d l rs := by
  refine ⟨hreuse.trans h.reuse, ?_, h.isOpen, htimeout ▸ h.timeout⟩
  rw [HTTPClient.connection, htcp]
  exact h.connection

/-- **Nothing is left to be read** on the connection, or there is none and
the server is there. -/
def Idle (answer : Answer) (c : HTTPClient) (rs : List Reaction) : Prop :=
  (∃ l, Open c l rs ∧ l.pending = []) ∨
    (c.connection = none ∧ c.reuse = true ∧
      ∃ link, answer = .opened link rs ∧ link.fin = false ∧ link.pending = [])

theorem Idle.congr {answer : Answer} {d : HTTPClient} (h : Idle answer c rs)
    (htcp : d.tcp = c.tcp)
    (hreuse : d.reuse = c.reuse) (htimeout : d.tcpTimeout = c.tcpTimeout) :
    Idle answer d rs := by
  rcases h with ⟨l, hopen, hp⟩ | ⟨hnone, hkeep, hanswer⟩
  · exact Or.inl ⟨l, hopen.congr htcp hreuse htimeout, hp⟩
  · refine Or.inr ⟨?_, hreuse.trans hkeep, hanswer⟩
    rw [HTTPClient.connection, htcp]
    exact hnone

/-- `connect` has a connection. -/
theorem Idle.connect {answer : Answer} (h : Idle answer c rs) :
    ∃ d l, c.connect answer = (true, d) ∧ Open d l rs ∧ l.pending = [] ∧
      d.tcpTimeout = c.tcpTimeout := by
  rcases h with ⟨l, hopen, hp⟩ | ⟨hnone, hkeep, link, rfl, hfin, hp⟩
  · obtain ⟨k, -, -, hconnected, hopen'⟩ := hopen.connected
    refine ⟨_, l.poll, ?_, hopen', by rw [l.poll_pending, hp], rfl⟩
    rw [HTTPClient.connect, hconnected]
    rfl
  · have hnew : Open (c.setConnection
        ⟨c.host, c.port, { link with timeout := c.tcpTimeout.toNat }, [], rs⟩)
        { link with timeout := c.tcpTimeout.toNat } rs := ⟨hkeep, ⟨_, rfl, rfl, rfl⟩, hfin, rfl⟩
    obtain ⟨k, -, -, hconnected, hopen'⟩ := hnew.connected
    refine ⟨_, _, ?_, hopen', by rw [Link.poll_pending]; exact hp, rfl⟩
    rw [HTTPClient.connect, HTTPClient.connected, hnone]
    exact hconnected

theorem Open.sendHeader {sched : List Slice} (type : WString)
    (h : Open c l (⟨none, sched, false⟩ :: rs)) :
    ∃ d, c.sendHeader type = (true, d) ∧ Open d (l.poll.extend sched) rs ∧
      d.tcpTimeout = c.tcpTimeout := by
  obtain ⟨k, -, -, hconnected, hopen⟩ := h.connected
  obtain ⟨d, hwrite, hopen', htimeout⟩ := hopen.tcpWrite
    (headerText_ne_nil (c.setConnection { k with link := l.poll }) type) (by simp)
  refine ⟨d, ?_, hopen', htimeout⟩
  rw [HTTPClient.sendHeader, hconnected]
  simp only [if_true, hwrite, decide_true]

/-- **The header of the request goes out.** -/
theorem Idle.sendHead {answer : Answer} {sched : List Slice} (type : WString) (size : ℕ)
    (h : Idle answer c (⟨none, sched, false⟩ :: rs)) :
    ∃ (d : HTTPClient) (l : Link), c.sendHead answer type size = (.ok (), d) ∧
      Open d (l.extend sched) rs ∧
      l.pending = [] ∧ d.tcpTimeout = c.tcpTimeout := by
  obtain ⟨d₁, l, hconnect, hopen, hp, htimeout⟩ := h.connect
  obtain ⟨d₂, hd₂, hopen₂, htimeout₂⟩ : ∃ d₂, (if 0 < size then
      d₁.addHeader (ascii "Content-Length") (ascii (toString size)) false else d₁) = d₂ ∧
      Open d₂ l (⟨none, sched, false⟩ :: rs) ∧ d₂.tcpTimeout = d₁.tcpTimeout := by
    refine ⟨_, rfl, ?_⟩
    split
    · obtain ⟨headers, heq⟩ := d₁.addHeader_frame (ascii "Content-Length")
        (ascii (toString size)) false
      rw [heq]
      exact ⟨hopen.congr rfl rfl rfl, rfl⟩
    · exact ⟨hopen, rfl⟩
  obtain ⟨d₃, hsend, hopen₃, htimeout₃⟩ := hopen₂.sendHeader type
  refine ⟨d₃, l.poll, ?_, hopen₃, by rw [l.poll_pending, hp],
    htimeout₃.trans (htimeout₂.trans htimeout)⟩
  rw [HTTPClient.sendHead, hconnect]
  dsimp only
  rw [Bool.not_true, if_neg (by decide), hd₂, hsend]
  rfl

/-- **The whole request goes out**, and all of the response is to come. -/
theorem Idle.sendAll {answer : Answer} {r : Round} (hwhole : r.Whole)
    (h : Idle answer c (r.reactions ++ rs)) :
    ∃ (d : HTTPClient) (l : Link), Open d (l.extend (r.early ++ r.late)) rs ∧ l.pending = [] ∧
      d.tcpTimeout = c.tcpTimeout ∧
      c.sendRequest answer r.type r.payload = do
        let (code, d) ← d.handleHeaderResponse
        return d.returnError code := by
  unfold HTTPClient.sendRequest
  by_cases hpayload : r.payload = []
  · rw [Round.reactions, if_pos hpayload, hwhole.1] at h
    obtain ⟨d, l, hhead, hopen, hp, htimeout⟩ := h.sendHead r.type r.payload.length
    refine ⟨d, l, hopen, hp, htimeout, ?_⟩
    rw [hhead, hpayload]
    rfl
  · rw [Round.reactions, if_neg hpayload, hwhole.1] at h
    have hpos : 0 < r.payload.length := List.length_pos_iff.mpr hpayload
    obtain ⟨d, l, hhead, hopen, hp, htimeout⟩ := h.sendHead r.type r.payload.length
    obtain ⟨d', hwrite, hopen', htimeout'⟩ := hopen.tcpWrite hpayload hwhole.2
    rw [Link.extend_extend] at hopen'
    refine ⟨d', l, hopen', hp, htimeout'.trans htimeout, ?_⟩
    rw [hhead]
    dsimp only
    rw [if_pos hpos, hwrite]
    dsimp only
    rw [if_neg (not_not.mpr rfl)]

/-- A header line has a second byte, so there is a time-out. -/
theorem LinesPrompt.timeout_pos {p : HttpResponse} {w : ℕ → ℕ} {timeout : ℕ}
    (h : LinesPrompt p.header w timeout) : 0 < timeout := by
  have hheader : ∃ t, p.header = 0x48 :: 0x54 :: t := ⟨_, rfl⟩
  obtain ⟨t, ht⟩ := hheader
  rw [ht] at h
  exact lt_of_le_of_lt (Nat.zero_le _) (h 0 (by simp) (by simp))

/-- **`sendRequest` returns the status of the response**, and its body is
what is left to be read. -/
theorem Idle.sendRequest {answer : Answer} {r : Round} (h : Idle answer c (r.reactions ++ rs))
    (hwhole : r.Whole) (hr : r.Answered c.tcpTimeout.toNat) :
    ∃ (d : HTTPClient) (l : Link), (c.sendRequest answer r.type r.payload).Yields
        ((r.response.statusCode : ℤ), d) ∧
      Open d l rs ∧ l.pending = r.response.body ∧ d.size = r.response.body.length ∧
      d.canReuse = true ∧ d.transferEncoding = .identity ∧ d.tcpTimeout = c.tcpTimeout := by
  obtain ⟨d, l, hopen, hp, htimeout, heq⟩ := h.sendAll hwhole
  obtain ⟨k, hk, hlink, hrs⟩ := hopen.connection
  have hpending : k.link.pending = r.response.header ++ r.response.body := by
    rw [hlink, Link.extend_pending, hp, List.nil_append, hr.delivered]
    rfl
  have htimeout' : k.link.timeout = c.tcpTimeout.toNat := by
    rw [hlink, hopen.timeout, htimeout]
  have hw : LinesPrompt r.response.header k.link.waitAt k.link.timeout := by
    intro j hj hne
    rw [hlink, Link.waitAt_extend hp, ← hlink, htimeout']
    exact hr.prompt j hj hne
  obtain ⟨l', headers, hyields, htook⟩ := handleHeaderResponse_yields hk (hlink ▸ hopen.isOpen)
    (htimeout' ▸ hr.prompt.timeout_pos) hpending hr.wellFormed hr.spaced hw
  refine ⟨{ d.setConnection { k with link := l' } with
      returnCode := r.response.statusCode, size := r.response.body.length, canReuse := true
      currentHeaders := headers, transferEncoding := .identity }, l', ?_,
    ⟨?_, ⟨{ k with link := l' }, rfl, rfl, hrs⟩, ?_, ?_⟩, ?_, rfl, rfl, rfl, htimeout⟩
  · rw [heq]
    refine Fueled.Yields.bind hyields ?_
    dsimp only
    rw [returnError, if_neg (by omega)]
    exact Fueled.yields_pure _
  · exact hopen.reuse
  · exact htook.fin.trans (hlink ▸ hopen.isOpen)
  · exact htook.timeout.trans (hlink ▸ hopen.timeout)
  · rw [htook.pending, hpending, List.drop_left]

/-- `end` keeps the connection. -/
theorem Open.end (h : Open c l rs) (hkeep : c.canReuse = true) :
    Open c.end l.poll rs ∧ c.end.tcpTimeout = c.tcpTimeout ∧ c.end.canReuse = true := by
  obtain ⟨k, hk, hlink, hconnected, hopen⟩ := h.connected
  have heq : c.end = c.setConnection { k with link := l.poll } := by
    rw [HTTPClient.end, hconnected]
    dsimp only
    rw [if_pos rfl, if_pos (by simp [setConnection, h.reuse, hkeep])]
  rw [heq]
  exact ⟨hopen, rfl, hkeep⟩

/-- **`writeToStream` reads the body** and keeps the connection. -/
theorem Open.writeToStream {sink : Sink} {body : List UInt8} (h : Open c l rs)
    (hp : l.pending = body) (hsize : c.size = body.length) (hlt : body.length < 2 ^ 31)
    (hkeep : c.canReuse = true) (hte : c.transferEncoding = .identity) (hto : 0 < l.timeout)
    (hsink : Accepts sink) :
    ∃ (d : HTTPClient) (l' : Link), (c.writeToStream (some sink)).Yields
        ((body.length : ℤ), some (wrote sink body), d) ∧
      Open d l' rs ∧ l'.pending = [] ∧ d.canReuse = true ∧ d.tcpTimeout = c.tcpTimeout := by
  obtain ⟨k, hk, rfl, hconnected, hopen⟩ := h.connected
  have hpoll := k.link.took_poll
  have hp' : k.link.poll.pending =
      body ++ [] := by rw [k.link.poll_pending, hp, List.append_nil]
  obtain ⟨l', hblock, htook⟩ := writeToStreamDataBlock_yields
    (hpoll.timeout ▸ hto) hp' hlt hsink
  set e := c.setConnection { k with link := k.link.poll } with he
  have hread : Open (e.setLink l') l' rs := by
    obtain ⟨k', hk', hlink', hrs'⟩ := hopen.connection
    have heq : e.setLink l' = e.setConnection { k' with link := l' } := by
      rw [setLink, hk']
    rw [heq]
    exact ⟨h.reuse, ⟨_, rfl, rfl, hrs'⟩, htook.fin.trans hopen.isOpen,
      htook.timeout.trans hopen.timeout⟩
  have hfields : (e.setLink l').canReuse = true ∧ (e.setLink l').tcpTimeout = c.tcpTimeout := by
    unfold setLink
    split
    · exact ⟨hkeep, rfl⟩
    · exact ⟨hkeep, rfl⟩
  obtain ⟨hend, htimeout, hkeep'⟩ := hread.end hfields.1
  refine ⟨(e.setLink l').end, l'.poll, ?_, hend, ?_, hkeep', htimeout.trans hfields.2⟩
  · unfold HTTPClient.writeToStream
    dsimp only
    rw [hconnected]
    have hconn : e.connection = some { k with link := k.link.poll } := rfl
    have hte' : e.transferEncoding = .identity := hte
    have hsize' : e.size = body.length := hsize
    simp only [hconn, hte', hsize']
    refine Fueled.Yields.bind hblock ?_
    dsimp only
    rw [if_neg (by omega)]
    exact Fueled.yields_pure _
  · rw [Link.poll_pending, htook.pending, k.link.poll_pending, hp, List.drop_length]

/-! ## Rounds in turn -/

/-- A body that is read is read in full. -/
theorem Open.readBody {r : Round} (hread : r.Read) (h : Open c l rs)
    (hp : l.pending = r.response.body)
    (hsize : c.size = r.response.body.length) (hlt : r.response.body.length < 2 ^ 31)
    (hkeep : c.canReuse = true) (hte : c.transferEncoding = .identity) (hto : 0 < l.timeout) :
    ∃ (d : HTTPClient) (l' : Link), (c.readBody r.reading).Yields d ∧
      Open d l' rs ∧ l'.pending = [] ∧
      d.canReuse = true ∧ d.tcpTimeout = c.tcpTimeout := by
  unfold Round.Read at hread
  cases hreading : r.reading with
  | unread => rw [hreading] at hread; exact hread.elim
  | writeToStream sink =>
    rw [hreading] at hread
    obtain ⟨d, l', hyields, hd⟩ := h.writeToStream hp hsize hlt hkeep hte hto hread
    exact ⟨d, l', Fueled.Yields.bind hyields (Fueled.yields_pure _), hd⟩
  | getString =>
    have haccepts : Accepts ⟨[], false, []⟩ := ⟨rfl, rfl⟩
    obtain ⟨d, l', hyields, hd⟩ := h.writeToStream hp hsize hlt hkeep hte hto haccepts
    exact ⟨d, l', Fueled.Yields.bind (Fueled.Yields.bind hyields (Fueled.yields_pure _))
      (Fueled.yields_pure _), hd⟩

theorem Idle.aim {answer : Answer} (h : Idle answer c rs) (target : Target) :
    Idle answer (c.aim target) rs ∧ (c.aim target).tcpTimeout = c.tcpTimeout := by
  cases target with
  | stay => exact ⟨h, rfl⟩
  | url url =>
    have hbegin : (c.begin url).tcp = c.tcp ∧ (c.begin url).reuse = c.reuse ∧
        (c.begin url).tcpTimeout = c.tcpTimeout := by
      unfold begin
      dsimp only
      split_ifs <;> exact ⟨rfl, rfl, rfl⟩
    exact ⟨h.congr hbegin.1 hbegin.2.1 hbegin.2.2, hbegin.2.2⟩
  | host host port url => exact ⟨h.congr rfl rfl rfl, rfl⟩

/-- **One round.** -/
theorem Idle.playRound {answer : Answer} {r : Round} (h : Idle answer c (r.reactions ++ rs))
    (hwhole : r.Whole) (hr : r.Answered c.tcpTimeout.toNat)
    (hreading : r.reading = .unread ∨ r.Read) :
    ∃ d, (playRound answer c r).Yields
        (((r.response.statusCode : ℤ), (r.response.body.length : ℤ)), d) ∧
      d.tcpTimeout = c.tcpTimeout ∧ (r.Finished → Idle answer d rs) := by
  obtain ⟨haim, htimeout⟩ := h.aim r.target
  obtain ⟨d, l, hsend, hopen, hp, hsize, hkeep, hte, htimeout'⟩ :=
    haim.sendRequest hwhole (htimeout ▸ hr)
  have hto : 0 < l.timeout := by
    rw [hopen.timeout, htimeout', htimeout]
    exact hr.prompt.timeout_pos
  obtain ⟨e, l', hyields, hopen', hp', hkeep', htimeout''⟩ :
      ∃ (e : HTTPClient) (l' : Link), (d.readBody r.reading).Yields e ∧ Open e l' rs ∧
        (r.Finished → l'.pending = []) ∧ e.canReuse = true ∧ e.tcpTimeout = d.tcpTimeout := by
    rcases hreading with hunread | hread
    · refine ⟨d, l, ?_, hopen, fun hfinished => ?_, hkeep, rfl⟩
      · rw [hunread]
        exact Fueled.yields_pure _
      · rcases hfinished with hread | ⟨-, hnil⟩
        · unfold Round.Read at hread
          rw [hunread] at hread
          exact hread.elim
        · rw [hp, hnil]
    · obtain ⟨e, l', hyields, he, hnil, hrest⟩ :=
        hopen.readBody hread hp hsize hr.spaced.body hkeep hte hto
      exact ⟨e, l', hyields, he, fun _ => hnil, hrest⟩
  obtain ⟨hend, hendTimeout, -⟩ := hopen'.end hkeep'
  refine ⟨e.end, ?_, ?_, fun hfinished => Or.inl ⟨l'.poll, hend, ?_⟩⟩
  · refine Fueled.Yields.bind hsend (Fueled.Yields.bind hyields ?_)
    rw [getSize, hsize]
    exact Fueled.yields_pure _
  · exact hendTimeout.trans (htimeout''.trans (htimeout'.trans htimeout))
  · rw [Link.poll_pending]
    exact hp' hfinished

/-- **Requests and responses are paired**: over one connection that the
server keeps, each `sendRequest` returns the status of its response and
`getSize` the length of its body, as long as every write goes through whole
and no body is left over when the next request is sent. -/
theorem play_pairs {link : Link} {more : List Reaction} {rounds : List Round}
    (hnone : c.connection = none) (hreuse : c.reuse = true) (hopen : link.fin = false)
    (hp : link.pending = []) (hwhole : ∀ r ∈ rounds, r.Whole)
    (hrounds : ∀ r ∈ rounds, r.Answered c.tcpTimeout.toNat)
    (hreading : ∀ r ∈ rounds, r.reading = .unread ∨ r.Read)
    (hfinished : ∀ r ∈ rounds.dropLast, r.Finished) :
    ∃ d, (play (.opened link (rounds.flatMap Round.reactions ++ more)) c rounds).Yields
      (rounds.map (fun r => ((r.response.statusCode : ℤ), (r.response.body.length : ℤ))),
        d) := by
  have hidle : Idle (.opened link (rounds.flatMap Round.reactions ++ more)) c
      (rounds.flatMap Round.reactions ++ more) := Or.inr ⟨hnone, hreuse, link, rfl, hopen, hp⟩
  -- from here on only the reactions that are left count
  generalize (Answer.opened link (rounds.flatMap Round.reactions ++ more)) = answer at hidle ⊢
  clear hnone hreuse hopen hp
  induction rounds generalizing c with
  | nil => exact ⟨c, Fueled.yields_pure _⟩
  | cons r rs ih =>
    rw [List.flatMap_cons, List.append_assoc] at hidle
    obtain ⟨d, hround, htimeout, hd⟩ :=
      hidle.playRound (hwhole r (by simp)) (hrounds r (by simp)) (hreading r (by simp))
    cases rs with
    | nil => exact ⟨d, Fueled.Yields.bind hround (Fueled.yields_pure _)⟩
    | cons r' rs =>
      obtain ⟨e, hrest⟩ := ih (c := d) (fun x hx => hwhole x (by simp [hx]))
        (fun x hx => by rw [htimeout]; exact hrounds x (by simp [hx]))
        (fun x hx => hreading x (by simp [hx]))
        (fun x hx => hfinished x (by rw [List.dropLast_cons_of_ne_nil (by simp)]; simp [hx]))
        (hd (hfinished r (by simp)))
      exact ⟨e, Fueled.Yields.bind hround (Fueled.Yields.bind hrest (Fueled.yields_pure _))⟩

/-! ## A body that is left over -/

theorem steady_writeToStreamDataBlock (l : Link) (sink : Sink) (size : ℤ) :
    (writeToStreamDataBlock l sink size).Steady :=
  Fueled.steady_loop (fun _ => Fueled.steady_pure _) _

theorem steady_chunkTurn (s : ChunkState) : (chunkTurn s).Steady := by
  have hpure : ∀ r, (pure r : Fueled (ChunkState ⊕ Except ℤ ℤ × ChunkState)).Steady :=
    fun r => Fueled.steady_pure r
  refine (hpure _).ite ((hpure _).ite (Fueled.Steady.ite ?_ ((hpure _).ite (hpure _))))
  exact (steady_writeToStreamDataBlock _ _ _).bind (fun _ => (hpure _).ite (hpure _))

theorem steady_writeToStream (c : HTTPClient) (stream : Option Sink) :
    (c.writeToStream stream).Steady := by
  unfold HTTPClient.writeToStream
  split
  · exact Fueled.steady_pure _
  · dsimp only
    split
    · split
      · exact (steady_writeToStreamDataBlock _ _ _).bind (fun _ => Fueled.steady_pure _)
      · exact (Fueled.steady_loop steady_chunkTurn _).bind (fun _ => Fueled.steady_pure _)
    · exact Fueled.steady_pure _

theorem steady_readBody (c : HTTPClient) (reading : Reading) : (c.readBody reading).Steady := by
  cases reading with
  | unread => exact Fueled.steady_pure _
  | writeToStream sink => exact (steady_writeToStream _ _).bind (fun _ => Fueled.steady_pure _)
  | getString =>
    exact ((steady_writeToStream _ _).bind (fun _ => Fueled.steady_pure _)).bind
      (fun _ => Fueled.steady_pure _)

theorem steady_sendRequest (c : HTTPClient) (answer : Answer) (type : WString)
    (payload : List UInt8) :
    (c.sendRequest answer type payload).Steady := by
  unfold HTTPClient.sendRequest
  split
  · exact Fueled.steady_pure _
  · exact (Fueled.steady_pure _).ite
      ((steady_handleHeaderResponse _).bind (fun _ => Fueled.steady_pure _))

theorem steady_play (answer : Answer) (c : HTTPClient) (rounds : List Round) :
    (play answer c rounds).Steady := by
  induction rounds generalizing c with
  | nil => exact Fueled.steady_pure _
  | cons r rs ih =>
    have hround : (playRound answer c r).Steady :=
      (steady_sendRequest _ _ _ _).bind
        (fun _ => (steady_readBody _ _).bind (fun _ => Fueled.steady_pure _))
    exact hround.bind (fun _ => (ih _).bind (fun _ => Fueled.steady_pure _))

/-- A response with the body `x`. -/
def okResponse : HttpResponse where
  version := 0x31
  code := ascii "200"
  reason := ascii "OK"
  fields := [⟨ascii "Content-Length", [0x20], ascii "1", []⟩,
    ⟨ascii "Connection", [0x20], ascii "keep-alive", []⟩]
  body := ascii "x"

theorem wellFormed_okResponse : okResponse.WellFormed where
  version := by decide
  code_length := by decide
  code_digits := by decide
  code_ge := by decide
  reason := by decide
  fields f hf := by
    have hdec : ∀ f ∈ okResponse.fields, f.name ≠ [] ∧
        (∀ c ∈ f.name, c ≠ 0x3A ∧ c ≠ 0x2F ∧ c ≠ 0 ∧ isspace c = false) ∧
        (∀ c ∈ f.pad, c = 0x20 ∨ c = 0x09) ∧ 0x0A ∉ f.value ∧
          ∀ c ∈ f.trail, c = 0x20 ∨ c = 0x09 := by
      decide
    obtain ⟨hne, hname, hpad, hvalue, htrail⟩ := hdec f hf
    exact ⟨hne, hname, hpad, hvalue, htrail⟩
  hasLength := by unfold Field.Named; decide
  length := by unfold Field.Named; decide
  hasKeepAlive := by unfold Field.Named; decide
  keepAlive := by unfold Field.Named; decide
  identity := by unfold Field.Named; decide

theorem spaced_okResponse : okResponse.Spaced where
  pad := by unfold Field.Named; decide
  names := by decide
  body := by decide

/-- A round in which it arrives at once. -/
def okRound (reading : Reading) : Round :=
  ⟨.url (ascii "http://a/"), ascii "GET", [], none, none, okResponse,
    [⟨okResponse.bytes, 1⟩], [], reading⟩

theorem whole_okRound (reading : Reading) : (okRound reading).Whole := ⟨rfl, by simp [okRound]⟩

theorem answered_okRound (reading : Reading) {timeout : ℕ} (hto : 0 < timeout) :
    (okRound reading).Answered timeout where
  wellFormed := wellFormed_okResponse
  spaced := spaced_okResponse
  delivered := by simp [okRound]
  prompt j _ _ := by
    have hzero : (Link.waitsFrom 0 [⟨okResponse.bytes, 1⟩]).getD (j + 1) 0 = 0 := by
      unfold Link.waitsFrom
      split
      · rfl
      · rw [Link.waitsFrom, List.append_nil, List.getD_cons_succ, List.getD_eq_getElem?_getD,
          List.getElem?_replicate]
        split <;> rfl
    show (Link.waitsFrom 0 [⟨okResponse.bytes, 1⟩]).getD (j + 1) 0 < timeout
    rw [hzero]
    exact hto

/-- A connection that has just been opened. -/
def newLink : Link := ⟨[], 0, 0, [], false⟩

/-- A body that is read, and then one that is not. -/
theorem play_pairs_two :
    ∃ d, (play (.opened newLink
      ([okRound .getString, okRound .unread].flatMap Round.reactions ++ []))
      (init.setReuse true) [okRound .getString, okRound .unread]).Yields
      ([(200, 1), (200, 1)], d) :=
  play_pairs rfl rfl rfl rfl
    (fun r hr => by
      rcases (by simpa using hr : r = _ ∨ r = _) with rfl | rfl
      · exact whole_okRound _
      · exact whole_okRound _)
    (fun r hr => by
      rcases (by simpa using hr : r = _ ∨ r = _) with rfl | rfl
      · exact answered_okRound _ (by decide)
      · exact answered_okRound _ (by decide))
    (fun r hr => by
      rcases (by simpa using hr : r = _ ∨ r = _) with rfl | rfl
      · exact Or.inr trivial
      · exact Or.inl rfl)
    (fun r hr => by
      obtain rfl : r = _ := by simpa using hr
      exact Or.inl trivial)

/-- **A body `x` that is not read**: the line the next request finds first is
`xHTTP/1.1 200 OK`, which is no status line, and it returns -1. -/
theorem not_paired_unread :
    ∃ rounds : List Round, (∀ r ∈ rounds, r.Whole) ∧
      (∀ r ∈ rounds, r.Answered (init.setReuse true).tcpTimeout.toNat) ∧
      (∀ r ∈ rounds, r.reading = .unread ∨ r.Read) ∧
      ¬ ∃ d, (play (.opened newLink (rounds.flatMap Round.reactions)) (init.setReuse true)
        rounds).Yields
        (rounds.map (fun r => ((r.response.statusCode : ℤ), (r.response.body.length : ℤ))),
          d) := by
  refine ⟨[okRound .unread, okRound .unread], fun r hr => ?_, fun r hr => ?_,
    fun r hr => ?_, ?_⟩
  · obtain rfl : r = _ := by simpa using hr
    exact whole_okRound _
  · obtain rfl : r = _ := by simpa using hr
    exact answered_okRound _ (by decide)
  · obtain rfl : r = _ := by simpa using hr
    exact Or.inl rfl
  · rintro ⟨d, hd⟩
    have hrun :
        (play (.opened newLink ([okRound .unread, okRound .unread].flatMap Round.reactions))
        (init.setReuse true) [okRound .unread, okRound .unread] 20).map Prod.fst
          = some [(200, 1), (-1, 1)] := by
      decide +kernel
    obtain ⟨⟨results, e⟩, he, hresults⟩ := Option.map_eq_some_iff.mp hrun
    have heq := congrArg Prod.fst (hd.unique ((steady_play _ _ _).yields he))
    have hne : [okRound .unread, okRound .unread].map
        (fun r => ((r.response.statusCode : ℤ), (r.response.body.length : ℤ)))
          ≠ [(200, 1), (-1, 1)] := by
      decide
    exact hne (heq.trans hresults)

end HTTPClient
