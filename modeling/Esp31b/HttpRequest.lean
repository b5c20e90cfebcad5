import Esp31b.HttpClient

/-!
# Sending a request

`begin` takes a server and a path in one of two forms and resets what the
last response said, but touches neither `_tcp` nor the reuse flags.
`sendRequest` connects – or finds that the client is connected, to whatever
it is – and sends the header, the body and reads the header of the response.

A `String` is appended by `strcpy`, so of a text with a NUL the rest is lost.
The memory `malloc` returns is a parameter of the one function that can send
some of it.
-/

namespace HTTPClient

/-! ## The target -/

/-- `base64::encode`, where what it writes stays in its block: not for a text of 1,
2, 4 or 7 bytes. -/
def base64Encode (text : WString) : WString := Cencode.base64EncodeChars text

/-- `begin(url)`. A colon in front is the only thing that stops it: -1, for
no colon, passes the test as well. -/
def begin (c : HTTPClient) (url : WString) : HTTPClient :=
  let c := { c with returnCode := 0, size := -1, headers := [] }
  let index := url.indexOf 0x3A 0
  if index = 0 then c
  else
    let protocol := url.substring 0 (WString.pos index)
    let url := url.removeFront (WString.pos (index + 3))
    let index := url.indexOf 0x2F 0
    let host := url.substring 0 (WString.pos index)
    let url := url.removeFront (WString.pos index)
    let index := host.indexOf 0x40 0
    let (c, host) :=
      if 0 ≤ index then
        ({ c with base64Authorization := base64Encode (host.substring 0 (WString.pos index)) },
          host.removeFront (WString.pos (index + 1)))
      else (c, host)
    let index := host.indexOf 0x3A 0
    let hasPort := decide (0 ≤ index)
    let c :=
      if hasPort then
        { c with
          host := host.substring 0 (WString.pos index)
          port := UInt16.ofInt (WString.toInt (host.removeFront (WString.pos (index + 1)))) }
      else { c with host := host }
    let c := { c with url := url }
    if protocol.equalsIgnoreCase (ascii "http") then if hasPort then c
      else { c with port := 80 }
    else if protocol.equalsIgnoreCase (ascii "https") then
      if hasPort then c else { c with port := 443 }
    else c

/-- `begin(host, port, url)`. -/
def beginHost (c : HTTPClient) (host : WString) (port : UInt16) (url : WString) : HTTPClient :=
  { c with
    host := cstr host, port := port, url := cstr url
    returnCode := 0, size := -1, headers := [] }

/-! ## The connection -/

/-- What comes of `WiFiClient::connect` on a new `WiFiClient`. -/
inductive Answer where
  /-- The peer answers in time: its side of the connection. -/
  | opened (link : Link) (reactions : List Reaction)
  /-- The name is not found, or there is no route, or the peer refuses. -/
  | refused
  /-- The wait runs out with the pcb still there. -/
  | unanswered
  deriving DecidableEq, Repr

/-- `connect`. -/
def connect (c : HTTPClient) (answer : Answer) : Bool × HTTPClient :=
  let (up, c) := c.connected
  if up then (true, c)
  else
    match answer with
    | .opened link reactions =>
      (c.setConnection
        ⟨c.host, c.port, { link with timeout := c.tcpTimeout.toNat }, [], reactions⟩).connected
    | .refused => (false, { c with tcp := some ⟨none, none⟩ })
    | .unanswered => (false, { c with tcp := some ⟨none, some (c.host, c.port)⟩ })

/-- `WiFiClient::_connected`, for the pcb of a call that is over. -/
def lateConnected (c : HTTPClient) (link : Link) (reactions : List Reaction) :
    Option HTTPClient :=
  match c.tcp with
  | some ⟨_, some (host, port)⟩ => some (c.setConnection ⟨host, port, link, [], reactions⟩)
  | _ => none

/-- `_tcp->write`. -/
def tcpWrite (c : HTTPClient) (buf : List UInt8) : ℕ × HTTPClient :=
  match c.connection with
  | some k => ((k.write buf).1, c.setConnection (k.write buf).2)
  | none => (0, c)

/-! ## The request -/

/-- `addHeader(name, value, first)`. The block of `_Headers` is taken to be
zero behind its text; it shows where `headerLine` has a NUL, and nowhere else. -/
def addHeader (c : HTTPClient) (name value : WString) (first : Bool) : HTTPClient :=
  if !name.equalsIgnoreCase (ascii "Connection") &&
      !name.equalsIgnoreCase (ascii "User-Agent") &&
      !name.equalsIgnoreCase (ascii "Host") &&
      !(0 < c.base64Authorization.length && name.equalsIgnoreCase (ascii "Authorization")) then
    let headerLine := name.cleared ++ ascii ": " ++ value.cleared ++ ascii "\r\n"
    if first then { c with headers := (headerLine.cleared ++ c.headers.cleared).cleared }
    else { c with headers := c.headers ++ headerLine.cleared }
  else c

/-- It changes nothing else. -/
theorem addHeader_frame (c : HTTPClient) (name value : WString) (first : Bool) :
    ∃ headers, c.addHeader name value first = { c with headers := headers } := by
  unfold addHeader
  split
  · cases first
    · exact ⟨_, rfl⟩
    · exact ⟨_, rfl⟩
  · exact ⟨_, rfl⟩

/-- The text `sendHeader` sends. -/
@[irreducible]
def headerText (c : HTTPClient) (type : WString) : WString :=
  cstr type ++ ascii " " ++ c.url.cleared ++ ascii " HTTP/1." ++
    ascii (if c.useHTTP10 then "0" else "1") ++
    ascii "\r\nHost: " ++ c.host.cleared ++ ascii "\r\nUser-Agent: " ++ c.userAgent.cleared ++
    ascii "\r\nConnection: " ++ ascii (if c.reuse then "keep-alive" else "close") ++
    ascii "\r\n" ++
    (if c.useHTTP10 then [] else ascii
    "Accept-Encoding: identity;q=1 chunked;q=0.1 *;q=0\r\n") ++
    (if 0 < c.base64Authorization.length then
      ascii "Authorization: Basic " ++ c.base64Authorization.cleared ++ ascii "\r\n" else []) ++
    c.headers.cleared ++ ascii "\r\n"

theorem headerText_ne_nil (c : HTTPClient) (type : WString) : c.headerText type ≠ [] := by
  simp [headerText, ascii]

/-- `sendHeader`. -/
def sendHeader (c : HTTPClient) (type : WString) : Bool × HTTPClient :=
  let (up, c) := c.connected
  if up then
    let (n, d) := c.tcpWrite (c.headerText type)
    (n = (c.headerText type).length, d)
  else (false, c)

/-- What both forms of `sendRequest` start with: connect, announce the body,
send the header. -/
def sendHead (c : HTTPClient) (answer : Answer) (type : WString) (size : ℕ) :
    Except ℤ Unit × HTTPClient :=
  let (ok, c) := c.connect answer
  if !ok then (.error errorConnectionRefused, c)
  else
    let c :=
      if 0 < size then c.addHeader (ascii "Content-Length") (ascii (toString size)) false else c
    let (ok, c) := c.sendHeader type
    if !ok then (.error errorSendHeaderFailed, c) else (.ok (), c)

/-! ## The response -/

/-- What `handleHeaderResponse` collects from the lines. -/
structure Response where
  returnCode : ℤ
  size : ℤ
  canReuse : Bool
  transferEncoding : WString
  currentHeaders : List RequestArgument
  deriving DecidableEq, Repr

/-- The first collected header of a name gets its value. -/
def setHeader (headerName headerValue : WString) : List RequestArgument → List RequestArgument
  | [] => []
  | a :: as =>
    if a.key.equalsIgnoreCase headerName then ⟨a.key, headerValue⟩ :: as
    else a :: setHeader headerName headerValue as

/-- One line, trimmed. -/
def handleLine (r : Response) (headerLine : WString) : Response :=
  if headerLine.startsWith (ascii "HTTP/1.") then
    { r with returnCode :=
        WString.toInt (headerLine.substring 9 (WString.pos (headerLine.indexOf 0x20 9))) }
  else
    let index := headerLine.indexOf 0x3A 0
    if index = 0 then r
    else
      let headerName := headerLine.substring 0 (WString.pos index)
      let headerValue := headerLine.substring (WString.pos (index + 2)) headerLine.length
      { returnCode := r.returnCode
        size :=
          if headerName.equalsIgnoreCase (ascii "Content-Length") then WString.toInt headerValue
          else r.size
        canReuse := if headerName.equalsIgnoreCase (ascii "Connection")
          then headerValue.equalsIgnoreCase (ascii "keep-alive") else r.canReuse
        transferEncoding :=
          if headerName.equalsIgnoreCase (ascii "Transfer-Encoding") then headerValue
          else r.transferEncoding
        currentHeaders := setHeader headerName headerValue r.currentHeaders }

/-- A turn of the loop of `handleHeaderResponse`; it is left when the
connection is gone or behind the empty line. -/
def headerTurn (s : Response × Link) : (Response × Link) ⊕ (Bool × Response × Link) :=
  let (r, link) := s
  let (up, link) := linkConnected link
  if up then
    let (len, link) := link.available
    if 0 < len then
      let (headerLine, link) := link.readStringUntil 0x0A
      let headerLine := WString.trim headerLine
      let r := handleLine r headerLine
      if headerLine.equalsC [] then .inr (true, r, link) else .inl (r, link)
    else .inl (r, link)
  else .inr (false, r, link)

/-- What `handleHeaderResponse` returns at the empty line. -/
def responseCode (r : Response) : ℤ × TransferEncoding :=
  if 0 < r.transferEncoding.length then
    if r.transferEncoding.equalsIgnoreCase (ascii "chunked") then
      (if r.returnCode ≠ 0 then r.returnCode else errorNoHttpServer, .chunked)
    else (errorEncoding, .identity)
  else (if r.returnCode ≠ 0 then r.returnCode else errorNoHttpServer, .identity)

/-- `handleHeaderResponse`. -/
def handleHeaderResponse (c : HTTPClient) : Fueled (ℤ × HTTPClient) := do
  let (up, c) := c.connected
  match up, c.connection with
  | true, some k =>
    let (found, r, link) ← Fueled.loop (fun s => pure (headerTurn s))
      (⟨-1, -1, c.canReuse, [], c.currentHeaders⟩, k.link)
    let c := { c.setLink link with
      returnCode := r.returnCode, size := r.size, canReuse := r.canReuse
      currentHeaders := r.currentHeaders
      transferEncoding := if found then (responseCode r).2 else .identity }
    return (if found then (responseCode r).1 else errorConnectionLost, c)
  | _, _ => return (errorNotConnected, c)

theorem steady_handleHeaderResponse (c : HTTPClient) : c.handleHeaderResponse.Steady := by
  unfold handleHeaderResponse
  dsimp only
  split
  · exact (Fueled.steady_loop (fun _ => Fueled.steady_pure _) _).bind
      (fun _ => Fueled.steady_pure _)
  · exact Fueled.steady_pure _

/-! ## The two forms of `sendRequest` -/

/-- `sendRequest(type, payload, size)`; no payload and an empty one are the
same. -/
def sendRequest (c : HTTPClient) (answer : Answer) (type : WString) (payload : List UInt8) :
    Fueled (ℤ × HTTPClient) := do
  match c.sendHead answer type payload.length with
  | (.error e, c) => return c.returnError e
  | (.ok (), c) =>
    let (n, c) := if 0 < payload.length then c.tcpWrite payload else (0, c)
    if n ≠ payload.length then return c.returnError errorSendPayloadFailed
    let (code, c) ← c.handleHeaderResponse
    return c.returnError code

/-- The variables of the loop of the other form. -/
structure UploadBlock where
  client : HTTPClient
  stream : Source
  len : ℤ
  bytesWritten : ℤ
  buff : List UInt8
  deriving DecidableEq, Repr

/-- A turn that has something to read. What a short read leaves of the buffer
is sent along when the write is tried again. Nothing sets the write error of
`_tcp`. -/
def sendBlock (buffSize : ℕ) (s : UploadBlock) (sizeAvailable : ℤ) :
    UploadBlock ⊕ Bool × UploadBlock :=
  let readBytes := if 0 < s.len ∧ s.len < sizeAvailable then s.len else sizeAvailable
  let readBytes := if (buffSize : ℤ) < readBytes then (buffSize : ℤ) else readBytes
  let len := if 0 < s.len then s.len - readBytes else s.len
  let (got, stream) := s.stream.readBytes (WString.pos readBytes)
  let buff := got ++ s.buff.drop got.length
  let (bytesWrite, client) := s.client.tcpWrite got
  let s := { s with client := client, stream := stream, buff := buff
                    bytesWritten := int32 (s.bytesWritten + bytesWrite) }
  if bytesWrite ≠ got.length then
    let leftBytes := readBytes - bytesWrite
    let (again, client) :=
      s.client.tcpWrite ((buff.drop bytesWrite).take (WString.pos leftBytes))
    let s := { s with client := client, bytesWritten := int32 (s.bytesWritten + again) }
    if (again : ℤ) ≠ leftBytes then .inr (false, s) else .inl { s with len := len }
  else .inl { s with len := len }

/-- A turn of the loop over the stream; it is left with whether all writes
went through. -/
def sendTurn (buffSize : ℕ) (s : UploadBlock) : UploadBlock ⊕ Bool × UploadBlock :=
  let (up, client) := s.client.connected
  let s := { s with client := client }
  if !up then .inr (true, s)
  else
    let (ready, stream) := s.stream.available
    let s := { s with stream := stream }
    if -1 < ready ∧ (0 < s.len ∨ s.len = -1) then
      let (sizeAvailable, stream) := s.stream.available
      let s := { s with stream := stream }
      if sizeAvailable ≠ 0 then sendBlock buffSize s sizeAvailable else .inl s
    else .inr (true, s)

/-- `sendRequest(type, stream, size)`. -/
def sendRequestStream (c : HTTPClient) (answer : Answer) (type : WString)
    (stream : Option Source)
    (size : ℕ) (ram : List UInt8) : Fueled (ℤ × Option Source × HTTPClient) := do
  match stream with
  | none =>
    let (e, c) := c.returnError errorNoStream
    return (e, none, c)
  | some stream =>
    match c.sendHead answer type size with
    | (.error e, c) =>
      let (e, c) := c.returnError e
      return (e, some stream, c)
    | (.ok (), c) =>
      let len := if int32 size = 0 then -1 else int32 size
      let buffSize := if 0 < len ∧ len < tcpBufferSize then len.toNat else tcpBufferSize
      let (ok, s) ← Fueled.loop (fun s => pure (sendTurn buffSize s)) ⟨c, stream, len, 0, ram⟩
      if !ok ∨ (0 < size ∧ int32 size ≠ s.bytesWritten) then
        let (e, c) := s.client.returnError errorSendPayloadFailed
        return (e, some s.stream, c)
      let (code, c) ← s.client.handleHeaderResponse
      let (code, c) := c.returnError code
      return (code, some s.stream, c)

/-- `getSize`. -/
def getSize (c : HTTPClient) : ℤ := c.size

end HTTPClient
