import Esp31b.Cencode
import Esp31b.Fueled
import Esp31b.Link
import Esp31b.WString

/-!
# The HTTP client

`HTTPClient` as the source has it: the target of the last `begin`, the
request that is being built, what the response header said, and `_tcp`, the
`WiFiClient` of the connection, which outlives a request when the server and
the application agree to keep it.

## The peer

Everything the peer does is part of the connection it does it on. A
`Connection` has the `Link` its bytes arrive over and the peer's
`reactions`: how much of each write is taken, and what is sent, or whether
the connection is closed, in return. `_tcp->connect` waits for a connection;
what it finds is a parameter of the functions that call it.

An `int` is a `ℤ` that is wrapped to 32 bits where the source adds to it.
Allocations succeed.
-/

/-! ## The streams of the application -/

/-- **The stream a body is written to**: what it has been given, whether its
write error is set, and how much it takes of each of the next writes and
whether that sets the error; everything from then on. -/
structure Sink where
  written : List UInt8
  writeError : Bool
  script : List (ℕ × Bool)
  deriving DecidableEq, Repr

namespace Sink

/-- `Print::write(buffer, size)`. -/
def write (s : Sink) (buffer : List UInt8) : ℕ × Sink :=
  match s.script with
  | [] => (buffer.length, { s with written := s.written ++ buffer })
  | (room, error) :: rest =>
    (min room buffer.length, ⟨s.written ++ buffer.take room, s.writeError || error, rest⟩)

/-- `Print::clearWriteError`. -/
def clearWriteError (s : Sink) : Sink := { s with writeError := false }

end Sink

/-- **The stream a request body is read from**: its bytes, and what its
`available` reports from call to call, -1 in the end. -/
structure Source where
  bytes : List UInt8
  ready : List ℤ
  deriving DecidableEq, Repr

namespace Source

/-- `Stream::available`. -/
def available (s : Source) : ℤ × Source :=
  match s.ready with
  | [] => (-1, s)
  | r :: rest => (r, { s with ready := rest })

/-- `Stream::readBytes`. -/
def readBytes (s : Source) (n : ℕ) : List UInt8 × Source :=
  (s.bytes.take n, { s with bytes := s.bytes.drop n })

end Source

/-! ## The connection -/

/-- **What the peer does with one write**: how much of it goes through, all
of it or so many bytes, and what arrives in return. -/
structure Reaction where
  room : Option ℕ
  sched : List Slice
  fin : Bool
  deriving DecidableEq, Repr

/-- **A TCP connection**: where it was opened to, and both of its
directions. -/
structure Connection where
  host : WString
  port : UInt16
  link : Link
  sent : List UInt8
  reactions : List Reaction
  deriving DecidableEq, Repr

namespace Connection

/-- `WiFiClient::write`. A connection that is down takes nothing; a peer
without further reactions takes everything and is silent. -/
def write (k : Connection) (buf : List UInt8) : ℕ × Connection :=
  if buf = [] ∨ k.link.up = false then (0, k)
  else
    match k.reactions with
    | [] => (buf.length, { k with sent := k.sent ++ buf })
    | r :: rest =>
      (min (r.room.getD buf.length) buf.length,
        { k with
          sent := k.sent ++ buf.take (r.room.getD buf.length)
          link := { k.link with sched := k.link.sched ++ r.sched, fin := k.link.fin || r.fin }
          reactions := rest })

end Connection

/-- `WiFiClient`: its `_client`, and the peer of a pcb that `connect` has
stopped waiting for and whose callback still points here. -/
structure WiFiClient where
  client : Option Connection
  attempt : Option (WString × UInt16)
  deriving DecidableEq, Repr

/-- `transferEncoding_t`. -/
inductive TransferEncoding where
  | identity
  | chunked
  deriving DecidableEq, Repr

/-- **`HTTPClient`**, less the `https` fields, which nothing reads. -/
structure HTTPClient where
  tcp : Option WiFiClient
  host : WString
  port : UInt16
  reuse : Bool
  tcpTimeout : UInt16
  useHTTP10 : Bool
  url : WString
  headers : WString
  userAgent : WString
  base64Authorization : WString
  currentHeaders : List RequestArgument
  returnCode : ℤ
  size : ℤ
  canReuse : Bool
  transferEncoding : TransferEncoding
  deriving DecidableEq, Repr

namespace HTTPClient

/-! The errors, `HTTPC_ERROR_*`. -/

def errorConnectionRefused : ℤ := -1
def errorSendHeaderFailed : ℤ := -2
def errorSendPayloadFailed : ℤ := -3
def errorNotConnected : ℤ := -4
def errorConnectionLost : ℤ := -5
def errorNoStream : ℤ := -6
def errorNoHttpServer : ℤ := -7
def errorEncoding : ℤ := -9
def errorStreamWrite : ℤ := -10
def errorReadTimeout : ℤ := -11

/-- `HTTP_TCP_BUFFER_SIZE`. -/
def tcpBufferSize : ℕ := 1460

/-- `HTTPCLIENT_DEFAULT_TCP_TIMEOUT`. -/
def defaultTcpTimeout : UInt16 := 5000

/-- The client as constructed. -/
def init : HTTPClient :=
  ⟨none, [], 0, false, defaultTcpTimeout, false, [], [], ascii "ESP31BHTTPClient", [],
    [], 0, -1, false, .identity⟩

/-! ## The connection in `_tcp` -/

/-- The connection `_tcp` has, if any. -/
def connection (c : HTTPClient) : Option Connection := c.tcp.bind WiFiClient.client

/-- The client with its connection gone on. -/
def setConnection (c : HTTPClient) (k : Connection) : HTTPClient :=
  { c with tcp := some ⟨some k, none⟩ }

/-- The client with the link of its connection gone on. -/
def setLink (c : HTTPClient) (l : Link) : HTTPClient :=
  match c.connection with
  | some k => c.setConnection { k with link := l }
  | none => c

/-- `_tcp->stop()`. -/
def stop (c : HTTPClient) : HTTPClient := { c with tcp := some ⟨none, none⟩ }

/-- `connected`, on the link of `_tcp`. -/
def linkConnected (l : Link) : Bool × Link :=
  match l.connected with
  | (true, l) => (true, l)
  | (false, l) => (0 < l.available.1, l.available.2)

/-- `connected`. -/
def connected (c : HTTPClient) : Bool × HTTPClient :=
  match c.connection with
  | none => (false, c)
  | some k => ((linkConnected k.link).1,
      c.setConnection { k with link := (linkConnected k.link).2 })

/-- `returnError`. -/
def returnError (c : HTTPClient) (error : ℤ) : ℤ × HTTPClient :=
  if error < 0 then
    let (up, c) := c.connected
    (error, if up then c.stop else c)
  else (error, c)

/-- `end`. -/
def «end» (c : HTTPClient) : HTTPClient :=
  let (up, c) := c.connected
  if up then if c.reuse && c.canReuse then c else c.stop else c

/-- `setReuse`. -/
def setReuse (c : HTTPClient) (reuse : Bool) : HTTPClient := { c with reuse := reuse }

/-! ## The body -/

/-- The variables of `writeToStreamDataBlock`. -/
structure BlockState where
  len : ℤ
  bytesWritten : ℤ
  link : Link
  sink : Sink
  deriving DecidableEq, Repr

/-- How many bytes a turn of `writeToStreamDataBlock` reads: no more than
have arrived, than are asked for and than the buffer holds. -/
def blockRead (buffSize : ℕ) (len : ℤ) (sizeAvailable : ℕ) : ℕ :=
  min (if 0 < len then min sizeAvailable len.toNat else sizeAvailable) buffSize

/-- A turn of `writeToStreamDataBlock` that has read something. The bytes
have arrived, so the read is a full one. A short write is tried once more. -/
def blockWrite (s : BlockState) (buff : List UInt8) : BlockState ⊕ ℤ × Link × Sink :=
  let (bytesWrite, sink) := s.sink.write buff
  let bytesWritten := int32 (s.bytesWritten + bytesWrite)
  let len := if 0 < s.len then s.len - buff.length else s.len
  if bytesWrite ≠ buff.length then
    let leftBytes := buff.length - bytesWrite
    let (again, sink) := sink.clearWriteError.write (buff.drop bytesWrite)
    if again ≠ leftBytes then .inr (errorStreamWrite, s.link, sink)
    else if sink.writeError then .inr (errorStreamWrite, s.link, sink)
    else .inl ⟨len, int32 (bytesWritten + again), s.link, sink⟩
  else if sink.writeError then .inr (errorStreamWrite, s.link, sink)
  else .inl ⟨len, bytesWritten, s.link, sink⟩

/-- A turn of the loop of `writeToStreamDataBlock`. -/
def blockTurn (buffSize : ℕ) (size : ℤ) (s : BlockState) : BlockState ⊕ ℤ × Link × Sink :=
  let (up, link) := linkConnected s.link
  if up ∧ (0 < s.len ∨ s.len = -1) then
    let (sizeAvailable, link) := link.available
    if 0 < sizeAvailable then
      let (buff, link) := link.readBytes (blockRead buffSize s.len sizeAvailable)
      blockWrite { s with link := link } buff
    else .inl { s with link := link }
  else if 0 < size ∧ size ≠ s.bytesWritten then .inr (errorStreamWrite, link, s.sink)
  else .inr (s.bytesWritten, link, s.sink)

/-- `writeToStreamDataBlock`. -/
def writeToStreamDataBlock (link : Link) (sink : Sink) (size : ℤ) : Fueled (ℤ × Link × Sink) :=
  let buffSize := if 0 < size ∧ size < tcpBufferSize then size.toNat else tcpBufferSize
  Fueled.loop (fun s => pure (blockTurn buffSize size s)) ⟨size, 0, link, sink⟩

/-- The variables of the chunked branch of `writeToStream`; `total` is
`_size`. -/
structure ChunkState where
  size : ℤ
  ret : ℤ
  total : ℤ
  link : Link
  sink : Sink
  deriving DecidableEq, Repr

/-- A turn of the loop over the chunks. It is left with an error for
`returnError`, or with the number of bytes written. -/
def chunkTurn (s : ChunkState) : Fueled (ChunkState ⊕ Except ℤ ℤ × ChunkState) := do
  let (up, link) := linkConnected s.link
  if !up then return .inr (.error errorConnectionLost, { s with link := link })
  let (chunkHeader, link) := link.readStringUntil 0x0A
  if chunkHeader.length ≤ 0 then return .inr (.error errorReadTimeout, { s with link := link })
  let len := strtol (WString.trim chunkHeader) 16
  let size := int32 (s.size + len)
  if 0 < len then
    let (r, link, sink) ← writeToStreamDataBlock link s.sink len
    if r < 0 then return .inr (.error r, { s with size := size, link := link, sink := sink })
    return .inl { s with size := size, ret := int32 (s.ret + r), link := link, sink := sink }
  else
    let total := if s.total ≤ 0 then size else s.total
    if s.ret ≠ total then
      return .inr (.error errorStreamWrite,
        { s with size := size, total := total, link := link })
    return .inr (.ok s.ret, { s with size := size, total := total, link := link })

/-- The two ways `writeToStream` ends: over `returnError`, or over `end`. -/
def finish (c : HTTPClient) : Except ℤ ℤ → ℤ × HTTPClient
  | .error e => c.returnError e
  | .ok ret => (ret, c.end)

/-- `writeToStream`. -/
def writeToStream (c : HTTPClient) (stream : Option Sink) :
    Fueled (ℤ × Option Sink × HTTPClient) := do
  match stream with
  | none =>
    let (e, c) := c.returnError errorNoStream
    return (e, none, c)
  | some sink =>
    let (up, c) := c.connected
    match up, c.connection with
    | true, some k =>
      match c.transferEncoding with
      | .identity =>
        let (ret, link, sink) ← writeToStreamDataBlock k.link sink c.size
        let (ret, c) := (c.setLink link).finish (if ret < 0 then .error ret else .ok ret)
        return (ret, some sink, c)
      | .chunked =>
        let (res, s) ← Fueled.loop chunkTurn ⟨0, 0, c.size, k.link, sink⟩
        let (ret, c) := ({ c.setLink s.link with size := s.total }).finish res
        return (ret, some s.sink, c)
    | _, _ =>
      let (e, c) := c.returnError errorNotConnected
      return (e, some sink, c)

/-- `getString`, its memory reserved: `writeToStream` to a `StreamString`. -/
def getString (c : HTTPClient) : Fueled (WString × HTTPClient) := do
  let (_, sink, c) ← c.writeToStream (some ⟨[], false, []⟩)
  return ((sink.map Sink.written).getD [], c)

end HTTPClient
