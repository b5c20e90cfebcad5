import Esp31b.Fueled
import Esp31b.Link
import Esp31b.WebServer
import Mathlib.Data.List.Infix

/-!
# Uploading a file

The file branch of `_parseForm` copies the bytes of a part to the upload
handler and looks for the delimiter CR LF `--` boundary as it goes, by a
hand-written automaton: on a CR it reads on, one byte at a time, as long as
the bytes are those of the delimiter, and writes what it has held back once
they are not. After CR LF `--` it reads as many bytes as the boundary has
in one go, and if they are not the boundary it writes them too – without
looking for a delimiter among them.

So the file ends where it should unless one of these reads goes past the
end of the content and swallows part of the delimiter. `lookaheadsFit` is
the condition, a single pass over the content.
-/

namespace ESP31BWebServer

/-- `HTTP_UPLOAD_BUFLEN`. -/
def httpUploadBuflen : ℕ := 2048

/-- `if(_currentHandler && _currentHandler->canUpload(_currentUri))
_currentHandler->upload(*this, _currentUri, _currentUpload);` -/
def callUpload (s : ESP31BWebServer) : ESP31BWebServer :=
  match s.currentHandler with
  | some h => if h.canUpload s.currentUri then { s with uploads := s.uploads ++
      [s.currentUpload] } else s
  | none => s

/-- `_currentUpload.totalSize += _currentUpload.currentSize`. -/
def addCurrentSize (s : ESP31BWebServer) : ESP31BWebServer :=
  { s with currentUpload := { s.currentUpload with
      totalSize := s.currentUpload.totalSize + UInt32.ofNat s.currentUpload.buf.length } }

/-- The status of the upload. -/
def setStatus (s : ESP31BWebServer) (status : HTTPUploadStatus) : ESP31BWebServer :=
  { s with currentUpload := { s.currentUpload with status := status } }

/-- The buffer of the upload. -/
def setBuf (s : ESP31BWebServer) (buf : List UInt8) : ESP31BWebServer :=
  { s with currentUpload := { s.currentUpload with buf := buf } }

/-- `_uploadWriteByte`. -/
def uploadWriteByte (s : ESP31BWebServer) (b : UInt8) : ESP31BWebServer :=
  let s :=
    if s.currentUpload.buf.length = httpUploadBuflen then s.callUpload.addCurrentSize.setBuf []
      else s
  s.setBuf (s.currentUpload.buf ++ [b])

/-- Several calls of `_uploadWriteByte`. -/
@[irreducible]
def uploadWriteBytes (s : ESP31BWebServer) (bs : List UInt8) : ESP31BWebServer :=
  bs.foldl uploadWriteByte s

/-- A turn of the wait of `_uploadReadByte`. -/
def waitTurn (l : Link) : Link ⊕ Link :=
  let (n, l) := l.available
  if n = 0 then
    let (up, l) := l.connected
    if up then .inl l else .inr l
  else .inr l

/-- `_uploadReadByte`. A read that fails after the wait gives -1 as a byte. -/
def uploadReadByte (l : Link) : Fueled (UInt8 × Link) := do
  match l.read with
  | (some c, l) => return (c, l)
  | (none, l) =>
    let l ← Fueled.loop (fun l => pure (waitTurn l)) l
    return (l.read.1.getD 0xFF, l.read.2)

/-- `_parseFormUploadAborted`. -/
def parseFormUploadAborted (s : ESP31BWebServer) : ESP31BWebServer :=
  (s.setStatus .fileAborted).callUpload

/-- What the automaton does when the delimiter is there. -/
def uploadEnd (s : ESP31BWebServer) : ESP31BWebServer :=
  (s.callUpload.addCurrentSize.setStatus .fileEnd).callUpload

/-- The variables of the automaton at its label `readfile`. -/
structure UploadState where
  server : ESP31BWebServer
  link : Link
  argByte : UInt8

/-- What the automaton ends with: whether the delimiter was found. -/
abbrev UploadResult := Bool × ESP31BWebServer × Link

/-- From one `readfile` to the next. The buffer `endBuf` lies on the stack and
is not terminated: `left` is what a read that is cut short leaves of it, and
`found` what `strstr` makes of it and of whatever lies behind it. -/
def uploadTurnOn (found : UploadState → List UInt8 → Bool) (left : UploadState → List UInt8)
    (boundary : List UInt8) (s : UploadState) : Fueled (UploadState ⊕ UploadResult) := do
  if s.argByte ≠ 0x0D then
    let (up, link) := s.link.connected
    if !up then return .inr (false, s.server.parseFormUploadAborted, link)
    let (argByte, link) ← uploadReadByte link
    return .inl ⟨s.server.uploadWriteByte s.argByte, link, argByte⟩
  let (argByte, link) ← uploadReadByte s.link
  let (up, link) := link.connected
  if !up then return .inr (false, s.server.parseFormUploadAborted, link)
  if argByte ≠ 0x0A then return .inl ⟨s.server.uploadWriteByte 0x0D, link, argByte⟩
  let (argByte, link) ← uploadReadByte link
  let (up, link) := link.connected
  if !up then return .inr (false, s.server.parseFormUploadAborted, link)
  if argByte ≠ 0x2D then
    return .inl ⟨s.server.uploadWriteBytes [0x0D, 0x0A], link, argByte⟩
  let (argByte, link) ← uploadReadByte link
  let (up, link) := link.connected
  if !up then return .inr (false, s.server.parseFormUploadAborted, link)
  if argByte ≠ 0x2D then
    return .inl ⟨s.server.uploadWriteBytes [0x0D, 0x0A, 0x2D], link, argByte⟩
  let (got, link) := link.readBytes boundary.length
  let endBuf := got ++ ((left s).take boundary.length).drop got.length
  if found s endBuf then return .inr (true, s.server.uploadEnd, link)
  let (argByte, link) ← uploadReadByte link
  return .inl ⟨s.server.uploadWriteBytes ([0x0D, 0x0A, 0x2D, 0x2D] ++ endBuf), link, argByte⟩

/-- The same on a fixed stack, the buffer compared with the boundary byte by
byte. -/
def uploadTurn (boundary stack : List UInt8) (s : UploadState) :
    Fueled (UploadState ⊕ UploadResult) :=
  uploadTurnOn (fun _ endBuf => endBuf = boundary) (fun _ => stack) boundary s

/-- **What the stack holds** from `endBuf` on, when so many bytes are still to
come at the label. Behind these there is a NUL. -/
abbrev StackMemory := ℕ → List UInt8

/-- A stack of NULs. -/
def zeroStack : StackMemory := fun _ => []

/-- `strstr((const char*)endBuf, boundary.c_str()) != NULL`. The buffer has no
terminator, so the search goes on in what is behind it. -/
def strstrFinds (boundary endBuf behind : List UInt8) : Bool :=
  decide (cstr boundary <:+: cstr (endBuf ++ behind))

/-- What a read that is cut short leaves of the stack. -/
def leftOn (stack : StackMemory) (s : UploadState) : List UInt8 := stack s.link.pending.length

/-- What `strstr` finds in `endBuf`, on a stack that may be another one at each
label. -/
def foundOn (stack : StackMemory) (boundary : List UInt8) (s : UploadState)
    (endBuf : List UInt8) : Bool :=
  strstrFinds boundary endBuf ((leftOn stack s).drop boundary.length)

/-- The same with `strstr`. -/
def uploadTurnStrstr (boundary : List UInt8) (stack : StackMemory) (s : UploadState) :
    Fueled (UploadState ⊕ UploadResult) :=
  uploadTurnOn (foundOn stack boundary) (leftOn stack) boundary s

/-- The file branch up to its first read: the handler is told. -/
def uploadStart (s : ESP31BWebServer) (name filename type : List UInt8) : ESP31BWebServer :=
  let s := { s with currentUpload := ⟨.fileStart, filename, name, type, 0, []⟩ }
  s.callUpload.setStatus .fileWrite

/-- **The file branch of `_parseForm`**, from the end of the part's header to
the end of its delimiter. -/
def uploadFileOn (found : UploadState → List UInt8 → Bool) (left : UploadState → List UInt8)
    (boundary name filename type : List UInt8) (s : ESP31BWebServer) (l : Link) :
    Fueled UploadResult := do
  let s := s.uploadStart name filename type
  let (argByte, l) ← uploadReadByte l
  Fueled.loop (uploadTurnOn found left boundary) ⟨s, l, argByte⟩

/-- The same on a fixed stack. -/
def uploadFile (boundary stack name filename type : List UInt8) (s : ESP31BWebServer)
    (l : Link) :
    Fueled UploadResult :=
  uploadFileOn (fun _ endBuf => endBuf = boundary)
    (fun _ => stack) boundary name filename type s l

/-- The same with `strstr`. -/
def uploadFileStrstr (boundary : List UInt8) (stack : StackMemory)
    (name filename type : List UInt8)
    (s : ESP31BWebServer) (l : Link) : Fueled UploadResult :=
  uploadFileOn (foundOn stack boundary) (leftOn stack) boundary name filename type s l

/-! ## Reading a byte -/

/-- The wait of `_uploadReadByte` ends with a byte there. -/
theorem wait_yields {l : Link} (hopen : l.fin = false) (hp : l.pending ≠ []) :
    ∃ l', (Fueled.loop (fun l => pure (waitTurn l)) l).Yields l' ∧
      l.Took 0 l' ∧ l'.rx ≠ [] := by
  refine Fueled.exists_yields_loop (fun l' => l.Took 0 l') (fun l' => l'.sched.length) _
    (fun l' hl' => ?_) (Link.Took.refl l)
  have htook : l.Took 0 l'.poll := by simpa using hl'.trans l'.took_poll
  by_cases hrx : l'.poll.rx = []
  · right
    have hturn : waitTurn l' = .inl l'.poll.poll := by
      simp [waitTurn, Link.available, hrx, Link.connected_eq (htook.fin.trans hopen)]
    have hp' : l'.pending ≠ [] := by rwa [hl'.pending, List.drop_zero]
    refine ⟨l'.poll.poll, hturn ▸ Fueled.yields_pure _, ?_, ?_⟩
    · simpa using htook.trans l'.poll.took_poll
    · exact lt_of_le_of_lt l'.poll.took_poll.sched
        (Link.poll_sched_lt (Link.sched_ne_nil hp' hrx))
  · left
    have hturn : waitTurn l' = .inr l'.poll := by
      simp [waitTurn, Link.available, hrx]
    exact ⟨l'.poll, hturn ▸ Fueled.yields_pure _, htook, hrx⟩

/-- **`_uploadReadByte` gets the next byte**, however long it takes to come. -/
theorem uploadReadByte_yields {l : Link} {c : UInt8} {rest : List UInt8} (hopen : l.fin = false)
    (hp : l.pending = c :: rest) : ∃ l', (uploadReadByte l).Yields (c, l') ∧ l.Took 1 l' := by
  unfold uploadReadByte
  obtain ⟨hnone, htook⟩ | ⟨d, hd, hhead, htook⟩ := l.read_takes
  · obtain ⟨l₁, hl₁, htook₁, hrx⟩ := wait_yields (htook.fin.trans hopen)
      (l := l.read.2) (by rw [htook.pending, hp]; simp)
    have htook₁' : l.Took 0 l₁ := by simpa using htook.trans htook₁
    obtain ⟨l₂, hl₂, htook₂⟩ := Link.read_eq hrx (htook₁'.pending.trans hp)
    refine ⟨l₂, ?_, by simpa using htook₁'.trans htook₂⟩
    rw [show l.read = (none, l.read.2) from Prod.ext hnone rfl]
    refine Fueled.Yields.bind hl₁ ?_
    rw [hl₂]
    exact Fueled.yields_pure _
  · obtain rfl : c = d := by simpa [hp] using hhead
    refine ⟨l.read.2, ?_, htook⟩
    rw [show l.read = (some c, l.read.2) from Prod.ext hd rfl]
    exact Fueled.yields_pure _

/-! ## Writing bytes -/

/-- **What the handler has and what is still held back**: the `fileWrite`
calls since `base` and the buffer make up `w`, and the sizes are counted. -/
structure Holding (base : List HTTPUpload) (w : List UInt8) (s : ESP31BWebServer) : Prop where
  handler : ∃ h, s.currentHandler = some h ∧ h.canUpload s.currentUri = true
  status : s.currentUpload.status = .fileWrite
  calls : ∃ ws, s.uploads = base ++ ws ∧ (∀ u ∈ ws, u.status = .fileWrite) ∧
    w = ws.flatMap HTTPUpload.buf ++ s.currentUpload.buf ∧
    s.currentUpload.totalSize = UInt32.ofNat (ws.flatMap HTTPUpload.buf).length

variable {base : List HTTPUpload} {w : List UInt8} {s : ESP31BWebServer}

/-- A call of the handler takes the buffer as it is. -/
theorem Holding.callUpload_eq (h : Holding base w s) :
    s.callUpload = { s with uploads := s.uploads ++ [s.currentUpload] } := by
  obtain ⟨hd, hhandler, hcan⟩ := h.handler
  simp [callUpload, hhandler, hcan]

theorem Holding.flush (h : Holding base w s) :
    Holding base w (s.callUpload.addCurrentSize.setBuf []) := by
  obtain ⟨ws, hws, hstatus, hw, htotal⟩ := h.calls
  rw [h.callUpload_eq]
  refine ⟨h.handler, h.status, ws ++ [s.currentUpload], ?_, ?_, ?_, ?_⟩
  · simp [addCurrentSize, setBuf, hws]
  · intro u hu
    rcases List.mem_append.mp hu with hu | hu
    · exact hstatus u hu
    · rw [List.mem_singleton.mp hu]
      exact h.status
  · simp [addCurrentSize, setBuf, hw]
  · simp [addCurrentSize, setBuf, htotal, UInt32.ofNat_add]

/-- **One byte more.** -/
theorem Holding.write (h : Holding base w s) (b : UInt8) :
    Holding base (w ++ [b]) (s.uploadWriteByte b) := by
  have happend : ∀ {t : ESP31BWebServer}, Holding base w t →
      Holding base (w ++ [b]) (t.setBuf (t.currentUpload.buf ++ [b])) := by
    intro t ht
    obtain ⟨ws, hws, hstatus, hw, htotal⟩ := ht.calls
    exact ⟨ht.handler, ht.status, ws, hws, hstatus, by simp [hw, setBuf], htotal⟩
  unfold uploadWriteByte
  split
  · exact happend h.flush
  · exact happend h

theorem Holding.writes (h : Holding base w s) (bs : List UInt8) :
    Holding base (w ++ bs) (s.uploadWriteBytes bs) := by
  induction bs generalizing w s with
  | nil => simpa [uploadWriteBytes] using h
  | cons b bs ih => simpa [uploadWriteBytes] using ih (h.write b)

/-- **A finished upload**: the calls since `base` are the contents in
`fileWrite` calls, and then one `fileEnd` call with the size. -/
def Uploaded (base : List HTTPUpload) (w : List UInt8) (s : ESP31BWebServer) : Prop :=
  ∃ ws u, s.uploads = base ++ ws ++ [u] ∧ (∀ v ∈ ws, v.status = .fileWrite) ∧
    ws.flatMap HTTPUpload.buf = w ∧ u.status = .fileEnd ∧ u.totalSize = UInt32.ofNat w.length

theorem Holding.uploadEnd (h : Holding base w s) : Uploaded base w s.uploadEnd := by
  obtain ⟨ws, hws, hstatus, hw, htotal⟩ := h.calls
  obtain ⟨hd, hhandler, hcan⟩ := h.handler
  refine ⟨ws ++ [s.currentUpload],
    (s.callUpload.addCurrentSize.setStatus .fileEnd).currentUpload, ?_, ?_, ?_, rfl, ?_⟩
  · rw [ESP31BWebServer.uploadEnd, h.callUpload_eq, callUpload]
    simp [addCurrentSize, setStatus, hhandler, hcan, hws]
  · intro u hu
    rcases List.mem_append.mp hu with hu | hu
    · exact hstatus u hu
    · rw [List.mem_singleton.mp hu]
      exact h.status
  · simp [hw]
  · rw [h.callUpload_eq]
    simp [addCurrentSize, setStatus, htotal, hw, UInt32.ofNat_add]

/-! ## One turn of the automaton -/

/-- CR LF `--`, what a delimiter starts with. -/
def marker : List UInt8 := [0x0D, 0x0A, 0x2D, 0x2D]

/-- How far a turn gets from these bytes on when they do not start with the
delimiter; `n` is the length of the boundary. -/
def turnLength (n : ℕ) (q : List UInt8) : ℕ :=
  if marker <+: q then 4 + n
  else if [0x0D, 0x0A, 0x2D] <+: q then 3
  else if [0x0D, 0x0A] <+: q then 2
  else 1

/-- **The automaton at its label**, before byte `i` of what was pending: that
byte is in hand, and all before it is written. -/
structure At (l : Link) (base : List HTTPUpload) (i : ℕ) (s : UploadState) : Prop where
  byte : l.pending[i]? = some s.argByte
  took : l.Took (i + 1) s.link
  held : Holding base (l.pending.take i) s.server

variable {l l' : Link} {i k : ℕ} {b stack : List UInt8} {c : UInt8}

/-- The next byte is read and the connection is still up. -/
theorem readByte_connected (hopen : l.fin = false) (htook : l.Took k l')
    (hc : l.pending[k]? = some c) :
    ∃ l'', (uploadReadByte l').Yields (c, l'') ∧ l''.connected = (true, l''.poll) ∧
      l.Took (k + 1) l'' ∧ l.Took (k + 1) l''.poll := by
  have hp : l'.pending = c :: l.pending.drop (k + 1) := by
    rw [htook.pending, List.drop_eq_getElem_cons (List.getElem?_eq_some_iff.mp hc).1,
      (List.getElem?_eq_some_iff.mp hc).2]
  obtain ⟨l'', hl'', htook'⟩ := uploadReadByte_yields (htook.fin.trans hopen) hp
  have htook'' := htook.trans htook'
  exact ⟨l'', hl'', Link.connected_eq (htook''.fin.trans hopen), htook'',
    by simpa using htook''.trans l''.took_poll⟩

/-- What a turn writes is the bytes it passes. -/
theorem held_take {s : ESP31BWebServer} {q : List UInt8} (h : Holding base (l.pending.take i) s)
    (hq : l.pending.drop i = q) (k : ℕ) :
    Holding base (l.pending.take (i + k)) (s.uploadWriteBytes (q.take k)) := by
  rw [List.take_add, hq]
  exact h.writes _

/-- The same for one byte. -/
theorem held_take_succ {s : ESP31BWebServer} (h : Holding base (l.pending.take i) s)
    (hc : l.pending[i]? = some c) :
    Holding base (l.pending.take (i + 1)) (s.uploadWriteByte c) := by
  rw [List.take_add_one, hc]
  exact h.write c

/-- The byte at an offset into what is left. -/
theorem getElem?_of_drop {q : List UInt8} (hq : l.pending.drop i = q) (k : ℕ) :
    l.pending[i + k]? = q[k]? := by
  rw [← hq, List.getElem?_drop]

/-- A byte that is no CR is written. -/
theorem uploadTurn_other {server : ESP31BWebServer} {link : Link} {a x : UInt8} {q : List UInt8}
    (hopen : l.fin = false) (h : At l base i ⟨server, link, a⟩)
    (hq : l.pending.drop i = a :: x :: q) (ha : a ≠ 0x0D) :
    ∃ t, (uploadTurn b stack ⟨server, link, a⟩).Yields (.inl t) ∧ At l base (i + 1) t := by
  have hx := getElem?_of_drop hq 1
  have htook : l.Took (i + 1) link.poll := by simpa using h.took.trans link.took_poll
  obtain ⟨l', hl', -, htook', -⟩ := readByte_connected hopen htook hx
  refine ⟨⟨server.uploadWriteByte a, l', x⟩, ?_, hx, htook', held_take_succ h.held h.byte⟩
  unfold uploadTurn uploadTurnOn
  dsimp only
  rw [if_pos ha, Link.connected_eq (h.took.fin.trans hopen)]
  exact Fueled.Yields.bind hl' (Fueled.yields_pure _)

/-- A CR that no LF follows is written, and the byte after it is next. -/
theorem uploadTurn_cr {server : ESP31BWebServer} {link : Link} {x : UInt8} {q : List UInt8}
    (hopen : l.fin = false) (h : At l base i ⟨server, link, 0x0D⟩)
    (hq : l.pending.drop i = 0x0D :: x :: q) (hx : x ≠ 0x0A) :
    ∃ t, (uploadTurn b stack ⟨server, link, 0x0D⟩).Yields (.inl t) ∧ At l base (i + 1) t := by
  have hget := getElem?_of_drop hq
  obtain ⟨l₁, hl₁, hup₁, -, htook₁⟩ := readByte_connected hopen h.took (hget 1)
  refine ⟨⟨server.uploadWriteByte 0x0D, l₁.poll, x⟩, ?_, hget 1, htook₁,
    held_take_succ h.held h.byte⟩
  unfold uploadTurn uploadTurnOn
  refine Fueled.Yields.bind hl₁ ?_
  dsimp only
  rw [hup₁]
  dsimp only
  rw [if_pos hx]
  exact Fueled.yields_pure _

/-- CR LF and no hyphen. -/
theorem uploadTurn_crlf {server : ESP31BWebServer} {link : Link} {x : UInt8} {q : List UInt8}
    (hopen : l.fin = false) (h : At l base i ⟨server, link, 0x0D⟩)
    (hq : l.pending.drop i = 0x0D :: 0x0A :: x :: q) (hx : x ≠ 0x2D) :
    ∃ t, (uploadTurn b stack ⟨server, link, 0x0D⟩).Yields (.inl t) ∧ At l base (i + 2) t := by
  have hget := getElem?_of_drop hq
  obtain ⟨l₁, hl₁, hup₁, -, htook₁⟩ := readByte_connected hopen h.took (hget 1)
  obtain ⟨l₂, hl₂, hup₂, -, htook₂⟩ := readByte_connected hopen htook₁ (hget 2)
  refine ⟨⟨server.uploadWriteBytes [0x0D, 0x0A], l₂.poll, x⟩, ?_, hget 2, htook₂,
    held_take h.held hq 2⟩
  unfold uploadTurn uploadTurnOn
  refine Fueled.Yields.bind hl₁ ?_
  dsimp only
  rw [hup₁]
  refine Fueled.Yields.bind hl₂ ?_
  dsimp only
  rw [hup₂]
  dsimp only
  rw [if_pos hx]
  exact Fueled.yields_pure _

/-- CR LF, one hyphen and no second. -/
theorem uploadTurn_hyphen {server : ESP31BWebServer} {link : Link} {x : UInt8} {q : List UInt8}
    (hopen : l.fin = false) (h : At l base i ⟨server, link, 0x0D⟩)
    (hq : l.pending.drop i = 0x0D :: 0x0A :: 0x2D :: x :: q) (hx : x ≠ 0x2D) :
    ∃ t, (uploadTurn b stack ⟨server, link, 0x0D⟩).Yields (.inl t) ∧ At l base (i + 3) t := by
  have hget := getElem?_of_drop hq
  obtain ⟨l₁, hl₁, hup₁, -, htook₁⟩ := readByte_connected hopen h.took (hget 1)
  obtain ⟨l₂, hl₂, hup₂, -, htook₂⟩ := readByte_connected hopen htook₁ (hget 2)
  obtain ⟨l₃, hl₃, hup₃, -, htook₃⟩ := readByte_connected hopen htook₂ (hget 3)
  refine ⟨⟨server.uploadWriteBytes [0x0D, 0x0A, 0x2D], l₃.poll, x⟩, ?_, hget 3, htook₃,
    held_take h.held hq 3⟩
  unfold uploadTurn uploadTurnOn
  refine Fueled.Yields.bind hl₁ ?_
  dsimp only
  rw [hup₁]
  refine Fueled.Yields.bind hl₂ ?_
  dsimp only
  rw [hup₂]
  refine Fueled.Yields.bind hl₃ ?_
  dsimp only
  rw [hup₃]
  dsimp only
  rw [if_pos hx]
  exact Fueled.yields_pure _

/-- **The bytes read behind CR LF `--`**, and what is made of them. -/
theorem uploadTurn_marker (stack : List UInt8) {server : ESP31BWebServer} {link : Link}
    {q : List UInt8} (hopen : l.fin = false) (h : At l base i ⟨server, link, 0x0D⟩)
    (hq : l.pending.drop i = marker ++ q) (hlen : b.length ≤ q.length)
    (hw : ∀ j < b.length, l.waitAt (i + 4 + j) < l.timeout) :
    ∃ l', l.Took (i + 4 + b.length) l' ∧ ∀ r,
      ((if q.take b.length = b then pure (.inr (true, server.uploadEnd, l'))
        else do
          let (argByte, link) ← uploadReadByte l'
          return .inl ⟨server.uploadWriteBytes (marker ++ q.take b.length), link, argByte⟩ :
          Fueled (UploadState ⊕ UploadResult)).Yields r →
        (uploadTurn b stack ⟨server, link, 0x0D⟩).Yields r) := by
  have hget := getElem?_of_drop hq
  obtain ⟨l₁, hl₁, hup₁, -, htook₁⟩ := readByte_connected hopen h.took (hget 1)
  obtain ⟨l₂, hl₂, hup₂, -, htook₂⟩ := readByte_connected hopen htook₁ (hget 2)
  obtain ⟨l₃, hl₃, hup₃, -, htook₃⟩ := readByte_connected hopen htook₂ (hget 3)
  have hp₃ : l₃.poll.pending = q := by
    rw [htook₃.pending, show i + 3 + 1 = i + 4 by omega, ← List.drop_drop, hq]
    rfl
  obtain ⟨l₄, hl₄, htook₄⟩ := Link.readBytes_eq (n := b.length) (l := l₃.poll) (by rwa [hp₃])
    (fun j hj => by
      rw [htook₃.timeout]
      refine lt_of_le_of_lt (htook₃.waitAt j) ?_
      rw [show j + (i + 3 + 1) = i + 4 + j by omega]
      exact hw j hj)
  refine ⟨l₄, htook₃.trans htook₄, fun r hr => ?_⟩
  unfold uploadTurn uploadTurnOn
  refine Fueled.Yields.bind hl₁ ?_
  dsimp only
  rw [hup₁]
  refine Fueled.Yields.bind hl₂ ?_
  dsimp only
  rw [hup₂]
  refine Fueled.Yields.bind hl₃ ?_
  dsimp only
  rw [hup₃]
  dsimp only
  rw [hl₄, hp₃]
  dsimp only
  -- the read was a full one, so nothing of the stack is left in the buffer
  rw [List.drop_eq_nil_of_le (by rw [List.length_take, List.length_take]; omega),
    List.append_nil, if_neg (by decide), if_neg (by decide)]
  simp only [decide_eq_true_eq]
  exact hr

theorem one_le_turnLength (n : ℕ) (q : List UInt8) : 1 ≤ turnLength n q := by
  unfold turnLength
  split_ifs <;> omega

theorem take_marker (n : ℕ) (q : List UInt8) :
    (marker ++ q).take (4 + n) = marker ++ q.take n := by
  rw [Nat.add_comm]
  rfl

/-- CR LF `--` and not the boundary: everything read is written. -/
theorem uploadTurn_mismatch {server : ESP31BWebServer} {link : Link} {q : List UInt8}
    (hopen : l.fin = false) (h : At l base i ⟨server, link, 0x0D⟩)
    (hq : l.pending.drop i = marker ++ q) (hlen : i + 4 + b.length < l.pending.length)
    (hno : ¬ marker ++ b <+: marker ++ q)
    (hw : ∀ j < b.length, l.waitAt (i + 4 + j) < l.timeout) :
    ∃ t, (uploadTurn b stack ⟨server, link, 0x0D⟩).Yields (.inl t) ∧
      At l base (i + (4 + b.length)) t := by
  have hqlen : q.length = l.pending.length - i - 4 := by
    have := congrArg List.length hq
    rw [List.length_drop, List.length_append, show marker.length = 4 from rfl] at this
    omega
  have hne : q.take b.length ≠ b := by
    intro heq
    refine hno ((List.prefix_append_right_inj marker).mpr ?_)
    rw [← heq]
    exact List.take_prefix _ _
  obtain ⟨l', htook, hturn⟩ := uploadTurn_marker stack hopen h hq (by omega) hw
  obtain ⟨d, hbyte⟩ : ∃ d, l.pending[i + 4 + b.length]? = some d :=
    ⟨_, List.getElem?_eq_getElem hlen⟩
  obtain ⟨l'', hl'', -, htook'', -⟩ := readByte_connected hopen htook hbyte
  have hheld := held_take h.held hq (4 + b.length)
  rw [take_marker] at hheld
  rw [show i + 4 + b.length = i + (4 + b.length) by omega] at hbyte htook''
  refine ⟨⟨server.uploadWriteBytes (marker ++ q.take b.length), l'', d⟩, hturn _ ?_, hbyte,
    htook'', hheld⟩
  rw [if_neg hne]
  exact Fueled.Yields.bind hl'' (Fueled.yields_pure _)

/-- A turn from CR LF on. -/
theorem uploadTurn_again_crlf {server : ESP31BWebServer} {link : Link} {q : List UInt8}
    (hopen : l.fin = false) (h : At l base i ⟨server, link, 0x0D⟩)
    (hno : ¬ marker ++ b <+: l.pending.drop i)
    (hlt : i + turnLength b.length (l.pending.drop i) < l.pending.length)
    (hw : marker <+: l.pending.drop i → ∀ j < b.length, l.waitAt (i + 4 + j) < l.timeout)
    (hq : l.pending.drop i = 0x0D :: 0x0A :: q) :
    ∃ t, (uploadTurn b stack ⟨server, link, 0x0D⟩).Yields (.inl t) ∧
      At l base (i + turnLength b.length (l.pending.drop i)) t := by
  have hlen : (l.pending.drop i).length = l.pending.length - i := List.length_drop
  rw [hq] at hno hlt hw hlen ⊢
  match q with
  | [] =>
    simp [turnLength, marker] at hlt hlen
    omega
  | y :: q =>
    by_cases hy : y = 0x2D
    · subst hy
      match q with
      | [] =>
        simp [turnLength, marker] at hlt hlen
        omega
      | z :: q =>
        by_cases hz : z = 0x2D
        · subst hz
          -- the whole of CR LF `--`: a boundary's length is read
          have hmarker : marker <+: 0x0D :: 0x0A :: 0x2D :: 0x2D :: q := ⟨q, rfl⟩
          have hturn : turnLength b.length (0x0D :: 0x0A :: 0x2D :: 0x2D :: q) = 4 + b.length :=
            if_pos hmarker
          rw [hturn] at hlt ⊢
          simp only [List.length_cons] at hlen
          exact uploadTurn_mismatch hopen h hq (by omega) hno (hw hmarker)
        · have hturn : turnLength b.length (0x0D :: 0x0A :: 0x2D :: z :: q) = 3 := by
            simp [turnLength, marker, Ne.symm hz]
          rw [hturn]
          exact uploadTurn_hyphen hopen h hq hz
    · have hturn : turnLength b.length (0x0D :: 0x0A :: y :: q) = 2 := by
        simp [turnLength, marker, Ne.symm hy]
      rw [hturn]
      exact uploadTurn_crlf hopen h hq hy

/-- **A turn without a delimiter** passes `turnLength` bytes. -/
theorem uploadTurn_again {s : UploadState} (hopen : l.fin = false) (h : At l base i s)
    (hno : ¬ marker ++ b <+: l.pending.drop i)
    (hlt : i + turnLength b.length (l.pending.drop i) < l.pending.length)
    (hw : marker <+: l.pending.drop i → ∀ j < b.length, l.waitAt (i + 4 + j) < l.timeout) :
    ∃ t, (uploadTurn b stack s).Yields (.inl t) ∧
      At l base (i + turnLength b.length (l.pending.drop i)) t := by
  obtain ⟨server, link, a⟩ := s
  have hlen : (l.pending.drop i).length = l.pending.length - i := List.length_drop
  have hone := one_le_turnLength b.length (l.pending.drop i)
  obtain ⟨a', x, q, hq⟩ : ∃ a' x q, l.pending.drop i = a' :: x :: q := by
    match hq : l.pending.drop i with
    | a' :: x :: q => exact ⟨a', x, q, rfl⟩
    | [_] => rw [hq] at hlen; simp at hlen; omega
    | [] => rw [hq] at hlen; simp at hlen; omega
  obtain rfl : a' = a := by
    have hbyte := h.byte
    rw [show l.pending[i]? = l.pending[i + 0]? from rfl, getElem?_of_drop hq 0] at hbyte
    exact Option.some.inj hbyte
  by_cases ha : a' = 0x0D
  · subst ha
    by_cases hx : x = 0x0A
    · subst hx
      exact uploadTurn_again_crlf hopen h hno hlt hw hq
    · have hturn : turnLength b.length (l.pending.drop i) = 1 := by
        rw [hq]
        simp [turnLength, marker, Ne.symm hx]
      rw [hturn]
      exact uploadTurn_cr hopen h hq hx
  · have hturn : turnLength b.length (l.pending.drop i) = 1 := by
      rw [hq]
      simp [turnLength, marker, Ne.symm ha]
    rw [hturn]
    exact uploadTurn_other hopen h hq ha

/-- **A turn at the delimiter** ends the upload there. -/
theorem uploadTurn_end (stack : List UInt8) {s : UploadState} (hopen : l.fin = false)
    (h : At l base i s)
    (hdelim : marker ++ b <+: l.pending.drop i)
    (hw : ∀ j < b.length, l.waitAt (i + 4 + j) < l.timeout) :
    ∃ server l', (uploadTurn b stack s).Yields (.inr (true, server, l')) ∧
      Uploaded base (l.pending.take i) server := by
  obtain ⟨server, link, a⟩ := s
  obtain ⟨rest, hrest⟩ := hdelim
  have hq : l.pending.drop i = marker ++ (b ++ rest) := by rw [← hrest, List.append_assoc]
  obtain rfl : a = 0x0D := by
    have hbyte := h.byte
    rw [show l.pending[i]? = l.pending[i + 0]? from rfl, getElem?_of_drop hq 0] at hbyte
    exact (Option.some.inj hbyte).symm
  obtain ⟨l', -, hturn⟩ := uploadTurn_marker stack hopen h hq (by simp) hw
  refine ⟨server.uploadEnd, l', hturn _ ?_, h.held.uploadEnd⟩
  rw [if_pos (List.take_left)]
  exact Fueled.yields_pure _

/-! ## Where the automaton gets to -/

/-- **No read behind CR LF `--` goes past the end**: in one pass over the
content, where each CR LF `--` that is met takes the `n` bytes behind it
along, nothing is missing at the end. The counter is what still has to
follow. -/
def lookaheadsFit (n : ℕ) : ℕ → List UInt8 → Bool
  | k, [] => k = 0
  | 0, x :: xs => if marker <+: x :: xs then lookaheadsFit n (3 + n) xs
      else lookaheadsFit n 0 xs
  | k + 1, _ :: xs => lookaheadsFit n k xs

/-- **Turns from position to position**, all from before `m` and none of them
at the delimiter. -/
inductive Passes (b : List UInt8) (p : List UInt8) (m : ℕ) : ℕ → ℕ → Prop where
  | refl (i : ℕ) : Passes b p m i i
  | head {i j : ℕ} (hi : i < m) (hno : ¬ marker ++ b <+: p.drop i)
      (hlt : i + turnLength b.length (p.drop i) < p.length)
      (h : Passes b p m (i + turnLength b.length (p.drop i)) j) : Passes b p m i j

theorem lookaheadsFit_eq (n k : ℕ) (c : List UInt8) :
    lookaheadsFit n k c = (decide (k ≤ c.length) && lookaheadsFit n 0 (c.drop k)) := by
  induction k generalizing c with
  | zero => simp
  | succ k ih =>
    cases c with
    | nil => simp [lookaheadsFit]
    | cons x c => simp [lookaheadsFit, ih]

/-- A CR LF `--` in the content and what is behind it. -/
theorem lookaheadsFit_marker (n : ℕ) (r : List UInt8) :
    lookaheadsFit n 0 (marker ++ r) =
      (decide (n ≤ r.length) && lookaheadsFit n 0 (r.drop n)) := by
  have h : lookaheadsFit n 0 (marker ++ r) =
      lookaheadsFit n (3 + n) (0x0A :: 0x2D :: 0x2D :: r) :=
    if_pos ⟨r, rfl⟩
  rw [h, show 3 + n = n + 1 + 1 + 1 by omega]
  simp only [lookaheadsFit]
  exact lookaheadsFit_eq n n r

/-- The start of a delimiter that begins inside the content lies inside it:
the next delimiter's CR is no part of it. -/
theorem prefix_inside {m c rest : List UInt8} (hm : 0x0D ∉ m) (hne : c ≠ [])
    (h : 0x0D :: m <+: c ++ 0x0D :: rest) : 0x0D :: m <+: c := by
  rcases List.prefix_or_prefix_of_prefix h (List.prefix_append c _) with hmc | ⟨u, hu⟩
  · exact hmc
  · obtain ⟨x, c', rfl⟩ := List.exists_cons_of_ne_nil hne
    obtain ⟨rfl, hm'⟩ : x = 0x0D ∧ c' ++ u = m := by simpa using hu
    cases u with
    | nil => exact ⟨[], by rw [← hm', List.append_nil, List.append_nil]⟩
    | cons y u =>
      rw [← hu] at h
      have hy : y = 0x0D :=
        ((List.cons_prefix_cons).mp ((List.prefix_append_right_inj _).mp h)).1
      exact absurd (hm' ▸ hy ▸ by simp) hm

theorem lookaheadsFit_cons {n : ℕ} {x : UInt8} {c : List UInt8} (h : ¬ marker <+: x :: c) :
    lookaheadsFit n 0 (x :: c) = lookaheadsFit n 0 c := if_neg h

/-- **A turn inside the content** that does not meet CR LF `--` stays in it. -/
theorem turnLength_inside {n : ℕ} {c : List UInt8} (rest : List UInt8) (hne : c ≠ [])
    (hno : ¬ marker <+: c) :
    turnLength n (c ++ 0x0D :: rest) ≤ c.length ∧
      lookaheadsFit n 0 c = lookaheadsFit n 0 (c.drop (turnLength n (c ++ 0x0D :: rest))) := by
  unfold turnLength
  split_ifs with h₄ h₃ h₂
  · exact absurd (prefix_inside (by decide) hne h₄) hno
  · obtain ⟨t, rfl⟩ := prefix_inside (by decide) hne h₃
    refine ⟨by simp, ?_⟩
    have hno' : ¬ marker <+: 0x0D :: 0x0A :: 0x2D :: t := hno
    show lookaheadsFit n 0 (0x0D :: 0x0A :: 0x2D :: t) = lookaheadsFit n 0 t
    rw [lookaheadsFit_cons hno', lookaheadsFit_cons (by simp [marker]),
      lookaheadsFit_cons (by simp [marker])]
  · obtain ⟨t, rfl⟩ := prefix_inside (by decide) hne h₂
    refine ⟨by simp, ?_⟩
    have hno' : ¬ marker <+: 0x0D :: 0x0A :: t := hno
    show lookaheadsFit n 0 (0x0D :: 0x0A :: t) = lookaheadsFit n 0 t
    rw [lookaheadsFit_cons hno', lookaheadsFit_cons (by simp [marker])]
  · obtain ⟨x, c, rfl⟩ := List.exists_cons_of_ne_nil hne
    exact ⟨by simp, lookaheadsFit_cons hno⟩

/-- **The automaton gets to the end of the content** when its reads fit, and
past it when one does not. -/
theorem passes_content {p c rest : List UInt8} {i m : ℕ}
    (hp : p.drop i = c ++ (marker ++ b ++ rest))
    (hm : i + c.length = m) (hfirst : ∀ j < c.length, ¬ marker ++ b <+: p.drop (i + j)) :
    if lookaheadsFit b.length 0 c then Passes b p m i m
    else ∃ j, m < j ∧ Passes b p m i j := by
  induction hn : c.length using Nat.strong_induction_on generalizing c i with
  | _ n ih =>
    have hlen : p.length = i + c.length + 4 + b.length + rest.length := by
      have h := congrArg List.length hp
      simp only [List.length_drop, List.length_append, show marker.length = 4 from rfl] at h
      omega
    by_cases hne : c = []
    · subst hne
      obtain rfl : i = m := hm
      rw [if_pos (by simp [lookaheadsFit])]
      exact Passes.refl i
    · have hpos := List.length_pos_iff.mpr hne
      have hno : ¬ marker ++ b <+: p.drop i := hfirst 0 (by omega)
      -- the next turn passes `k` bytes, and from there on the content is `c.drop k`
      have hnext : ∀ k, turnLength b.length (p.drop i) = k → 0 < k → k ≤ c.length →
          lookaheadsFit b.length 0 c = lookaheadsFit b.length 0 (c.drop k) →
          if lookaheadsFit b.length 0 c then Passes b p m i m else ∃ j, m < j ∧
            Passes b p m i j := by
        intro k hk hk0 hkle hfit
        have hgo := @ih (c.drop k).length (by rw [List.length_drop]; omega) (c.drop k) (i + k)
          (by rw [← List.drop_drop, hp, List.drop_append_of_le_length hkle])
          (by rw [List.length_drop]; omega)
          (fun j hj => by
            rw [Nat.add_assoc]
            exact hfirst (k + j) (by rw [List.length_drop] at hj; omega)) rfl
        have hhead : ∀ {j}, Passes b p m (i + k) j → Passes b p m i j := fun hj =>
          Passes.head (by omega) hno (by rw [hk]; omega) (hk ▸ hj)
        rw [← hfit] at hgo
        split_ifs at hgo ⊢
        · exact hhead hgo
        · obtain ⟨j, hj, hpass⟩ := hgo
          exact ⟨j, hj, hhead hpass⟩
      by_cases hmark : marker <+: c
      · obtain ⟨r, rfl⟩ := hmark
        have hturn : turnLength b.length (p.drop i) = 4 + b.length := by
          rw [hp]
          exact if_pos ⟨r ++ (marker ++ b ++ rest), by simp⟩
        rw [List.length_append, show marker.length = 4 from rfl] at hn hlen hm
        have hfit := lookaheadsFit_marker b.length r
        by_cases hr : b.length ≤ r.length
        · refine hnext (4 + b.length) hturn (by omega) (by simp [marker]; omega) ?_
          rw [hfit, decide_eq_true hr, Bool.true_and, ← List.drop_drop]
          rfl
        · -- the read goes past the end of the content
          rw [hfit, decide_eq_false hr, Bool.false_and, if_neg (by decide)]
          refine ⟨i + (4 + b.length), by omega,
            Passes.head (by omega) hno (by rw [hturn]; omega) ?_⟩
          rw [hturn]
          exact Passes.refl _
      · obtain ⟨hle, hfit⟩ := turnLength_inside (n := b.length)
          (0x0A :: 0x2D :: 0x2D :: (b ++ rest)) hne hmark
        have hturn : turnLength b.length (p.drop i)
            = turnLength b.length (c ++ 0x0D :: 0x0A :: 0x2D :: 0x2D :: (b ++ rest)) := by
          rw [hp]
          rfl
        exact hnext _ hturn (one_le_turnLength _ _) hle hfit

/-- The automaton makes the turns. -/
theorem steps_of_passes (stack : List UInt8) {j m : ℕ} (hopen : l.fin = false)
    (hw : ∀ i < m, marker <+: l.pending.drop i → ∀ j < b.length,
      l.waitAt (i + 4 + j) < l.timeout)
    (h : Passes b l.pending m i j) {s : UploadState} (hs : At l base i s) :
    ∃ t, Fueled.Steps (uploadTurn b stack) s t ∧ At l base j t := by
  induction h generalizing s with
  | refl i => exact ⟨s, Fueled.Steps.refl s, hs⟩
  | @head i j hi hno hlt _ ih =>
    obtain ⟨t, hturn, ht⟩ := uploadTurn_again hopen hs hno hlt (hw i hi)
    obtain ⟨u, hsteps, hu⟩ := ih ht
    exact ⟨u, Fueled.Steps.head hturn hsteps, hu⟩

theorem uploadWriteByte_eq (s : ESP31BWebServer) (c : UInt8) :
    s.uploadWriteByte c = s.uploadWriteBytes [c] := by
  unfold uploadWriteBytes
  rfl

/-- **What a turn does to the server**, whatever arrives and whatever is on
the stack: it writes some bytes, or it ends the file, or it aborts it. -/
theorem uploadTurnOn_cases (found : UploadState → List UInt8 → Bool)
    (left : UploadState → List UInt8)
    (b : List UInt8) (s : UploadState) :
    (uploadTurnOn found left b s).Gives fun r =>
      (∃ bs link c, r = .inl ⟨s.server.uploadWriteBytes bs, link, c⟩) ∨
      (∃ link, r = .inr (true, s.server.uploadEnd, link)) ∨
      ∃ link, r = .inr (false, s.server.parseFormUploadAborted, link) := by
  have habort : ∀ link : Link, (∃ l', (.inr (false, s.server.parseFormUploadAborted, link) :
      UploadState ⊕ UploadResult) = .inr (false, s.server.parseFormUploadAborted, l')) :=
    fun link => ⟨link, rfl⟩
  unfold uploadTurnOn
  refine Fueled.Gives.ite ?_ (Fueled.gives_bind _ fun _ => ?_)
  · refine .ite (Fueled.gives_pure (Or.inr (Or.inr (habort _))))
      (Fueled.gives_bind _ fun _ => ?_)
    rw [uploadWriteByte_eq]
    exact Fueled.gives_pure (Or.inl ⟨_, _, _, rfl⟩)
  rw [uploadWriteByte_eq]
  refine .ite (Fueled.gives_pure (Or.inr (Or.inr (habort _))))
    (.ite (Fueled.gives_pure (Or.inl ⟨_, _, _, rfl⟩)) (Fueled.gives_bind _ fun _ => ?_))
  refine .ite (Fueled.gives_pure (Or.inr (Or.inr (habort _))))
    (.ite (Fueled.gives_pure (Or.inl ⟨_, _, _, rfl⟩)) (Fueled.gives_bind _ fun _ => ?_))
  refine .ite (Fueled.gives_pure (Or.inr (Or.inr (habort _))))
    (.ite (Fueled.gives_pure (Or.inl ⟨_, _, _, rfl⟩)) ?_)
  refine .ite (Fueled.gives_pure (Or.inr (Or.inl ⟨_, rfl⟩))) (Fueled.gives_bind _ fun _ => ?_)
  exact Fueled.gives_pure (Or.inl ⟨_, _, _, rfl⟩)

/-- **Whatever arrives**, a turn only adds to what is written. -/
theorem uploadTurn_sound {s : UploadState} (h : Holding base w s.server) :
    (uploadTurn b stack s).Gives fun r =>
      (∃ t bs, r = .inl t ∧ Holding base (w ++ bs) t.server) ∨
      (∃ server l', r = .inr (true, server, l') ∧ Uploaded base w server) ∨
      ∃ server l', r = .inr (false, server, l') := by
  intro n r hr
  obtain ⟨bs, link, c, rfl⟩ | ⟨link, rfl⟩ | ⟨link, rfl⟩ := uploadTurnOn_cases _ _ _ _ n r hr
  · exact Or.inl ⟨_, bs, rfl, h.writes bs⟩
  · exact Or.inr (Or.inl ⟨_, link, rfl, h.uploadEnd⟩)
  · exact Or.inr (Or.inr ⟨_, link, rfl⟩)

/-- **An upload that has gone past some length ends past it.** -/
theorem upload_sound {s : UploadState} {m : ℕ} {server : ESP31BWebServer}
    (h : Holding base w s.server)
    (hm : m ≤ w.length)
    (hloop : (Fueled.loop (uploadTurn b stack) s).Yields (true, server, l')) :
    ∃ w', m ≤ w'.length ∧ Uploaded base w' server := by
  obtain ⟨N, hN⟩ := hloop
  refine Fueled.loop_sound (fun s : UploadState => ∃ w, m ≤ w.length ∧ Holding base w s.server)
    (fun r : UploadResult => r.1 = true → ∃ w', m ≤ w'.length ∧ Uploaded base w' r.2.1)
    (fun s n t hs hturn => ?_) (fun s n r hs hturn htrue => ?_) ⟨w, hm, h⟩
    (hN N (le_refl _)) rfl
  · obtain ⟨w, hw, hheld⟩ := hs
    obtain ⟨t', bs, ht', hheld'⟩ | ⟨_, _, heq, -⟩ | ⟨_, _, heq⟩ :=
      uploadTurn_sound hheld _ _ hturn
    · cases ht'
      exact ⟨w ++ bs, by rw [List.length_append]; omega, hheld'⟩
    · cases heq
    · cases heq
  · obtain ⟨w, hw, hheld⟩ := hs
    obtain ⟨t', bs, ht', -⟩ | ⟨_, _, heq, hup⟩ | ⟨_, _, heq⟩ := uploadTurn_sound hheld _ _ hturn
    · cases ht'
    · cases heq
      exact ⟨w, hw, hup⟩
    · cases heq
      cases htrue

/-! ## The whole file -/

/-- **The handler gets the file**: the buffers of its `fileWrite` calls are
the content, and one `fileEnd` call has its size. -/
def FileUploaded (boundary stack name filename type : List UInt8) (s : ESP31BWebServer)
    (l : Link)
    (c : List UInt8) : Prop :=
  ∃ server l', (uploadFile boundary stack name filename type s l).Yields (true, server, l') ∧
    ((server.uploads.drop s.uploads.length).filter (fun u => u.status = .fileWrite)).flatMap
      HTTPUpload.buf = c ∧
    ((server.uploads.drop s.uploads.length).filter (fun u => u.status = .fileEnd)).map
      (fun u => u.totalSize.toNat) = [c.length]

/-- What a finished upload has called the handler with. -/
theorem Uploaded.calls {start : HTTPUpload} {before : List HTTPUpload}
    (h : Uploaded (before ++ [start]) w s)
    (hstart : start.status = .fileStart) (c : List UInt8) :
    (((s.uploads.drop before.length).filter (fun u => u.status = .fileWrite)).flatMap
        HTTPUpload.buf = c ∧
      ((s.uploads.drop before.length).filter (fun u => u.status = .fileEnd)).map
        (fun u => u.totalSize.toNat) = [c.length]) ↔ w = c ∧ c.length < 2 ^ 32 := by
  obtain ⟨ws, u, huploads, hstatus, hws, hend, htotal⟩ := h
  have hdrop : s.uploads.drop before.length = [start] ++ ws ++ [u] := by
    rw [huploads, List.append_assoc, List.append_assoc, List.drop_left, List.append_assoc]
  have hwrite : ws.filter (fun v => v.status = .fileWrite) = ws :=
    List.filter_eq_self.mpr (fun v hv => by simp [hstatus v hv])
  have hnone : ws.filter (fun v => v.status = .fileEnd) = [] :=
    List.filter_eq_nil_iff.mpr (fun v hv => by simp [hstatus v hv])
  rw [hdrop]
  simp only [List.filter_append, hwrite, hnone, List.filter_cons, hstart, hend, List.filter_nil]
  simp [hws, htotal]
  intro hwc
  subst hwc
  omega

/-- The part up to the first byte: the handler has the `fileStart` call, and
the automaton is at its label. -/
theorem uploadFile_start (b stack name filename type : List UInt8) (hopen : l.fin = false)
    (hp : l.pending ≠ [])
    (hhandler : ∃ h, s.currentHandler = some h ∧ h.canUpload s.currentUri = true) :
    ∃ t, At l (s.uploads ++ [⟨.fileStart, filename, name, type, 0, []⟩]) 0 t ∧
      ∀ r, (uploadFile b stack name filename type s l).Yields r ↔
        (Fueled.loop (uploadTurn b stack) t).Yields r := by
  obtain ⟨c, rest, hc⟩ := List.exists_cons_of_ne_nil hp
  obtain ⟨l', hl', htook⟩ := uploadReadByte_yields hopen hc
  obtain ⟨h, hh, hcan⟩ := hhandler
  refine ⟨⟨s.uploadStart name filename type, l', c⟩, ⟨by simp [hc], htook, ?_⟩,
    fun r => ⟨fun hr => hr.of_bind hl', fun hr => hl'.bind hr⟩⟩
  refine ⟨⟨h, ?_⟩, rfl, [], ?_⟩
  · simp [uploadStart, callUpload, setStatus, hh, hcan]
  · simp [uploadStart, callUpload, setStatus, hh, hcan]

/-- **A file part is to be read**: its content, the delimiter – for the first
time – and whatever follows, on a connection that stays up and does not let
a read of the boundary time out. -/
structure FilePart (b c : List UInt8) (l : Link) : Prop where
  isOpen : l.fin = false
  pending : ∃ rest, l.pending = c ++ (marker ++ b ++ rest)
  first : ∀ j < c.length, ¬ marker ++ b <+: (c ++ (marker ++ b)).drop j
  waits : ∀ i ≤ c.length, marker <+: l.pending.drop i →
    ∀ j < b.length, l.waitAt (i + 4 + j) < l.timeout

variable {cs name filename type : List UInt8}

/-- The delimiter is not pending before the end of the content. -/
theorem FilePart.not_prefix (h : FilePart b cs l) {j : ℕ} (hj : j < cs.length) :
    ¬ marker ++ b <+: l.pending.drop j := by
  obtain ⟨rest, hp⟩ := h.pending
  intro hdelim
  refine h.first j hj (List.prefix_of_prefix_length_le hdelim ⟨rest, ?_⟩ ?_)
  · rw [hp, ← List.drop_append_of_le_length (by rw [List.length_append]; omega)]
    simp only [List.append_assoc]
  · simp only [List.length_drop, List.length_append]
    omega

/-- The upload comes to its loop before the content. -/
theorem FilePart.start (h : FilePart b cs l) (stack name filename type : List UInt8)
    (hhandler : ∃ h, s.currentHandler = some h ∧ h.canUpload s.currentUri = true) :
    ∃ t, At l (s.uploads ++ [⟨.fileStart, filename, name, type, 0, []⟩]) 0 t ∧
      ∀ r, (uploadFile b stack name filename type s l).Yields r ↔
        (Fueled.loop (uploadTurn b stack) t).Yields r := by
  obtain ⟨rest, hp⟩ := h.pending
  exact uploadFile_start b stack name filename type h.isOpen
    (by rw [hp]; simp [marker]) hhandler

/-- The turns pass the content if the reads in it fit, and more than it if not. -/
theorem FilePart.passes (h : FilePart b cs l) :
    if lookaheadsFit b.length 0 cs then Passes b l.pending cs.length 0 cs.length
    else ∃ j, cs.length < j ∧ Passes b l.pending cs.length 0 j := by
  obtain ⟨rest, hp⟩ := h.pending
  refine passes_content (i := 0) hp (Nat.zero_add _) fun j hj => ?_
  rw [Nat.zero_add]
  exact h.not_prefix hj

/-- **Where the reads fit, the upload ends with the content.** -/
theorem uploadFile_yields (stack name filename type : List UInt8) (h : FilePart b cs l)
    (hhandler : ∃ h, s.currentHandler = some h ∧ h.canUpload s.currentUri = true)
    (hfit : lookaheadsFit b.length 0 cs = true) :
    ∃ server l', (uploadFile b stack name filename type s l).Yields (true, server, l') ∧
      Uploaded (s.uploads ++ [⟨.fileStart, filename, name, type, 0, []⟩]) cs server := by
  obtain ⟨rest, hp⟩ := h.pending
  obtain ⟨t, ht, hyields⟩ := h.start stack name filename type hhandler
  have hpasses := h.passes
  rw [if_pos hfit] at hpasses
  obtain ⟨u, hsteps, hu⟩ := steps_of_passes stack h.isOpen
    (fun i hi => h.waits i (le_of_lt hi)) hpasses ht
  have hdrop : l.pending.drop cs.length = marker ++ b ++ rest := by rw [hp, List.drop_left]
  obtain ⟨server, l', hturn, hup⟩ := uploadTurn_end stack h.isOpen hu ⟨rest, hdrop.symm⟩
    (h.waits cs.length (le_refl _) ⟨b ++ rest, by rw [hdrop, List.append_assoc]⟩)
  rw [hp, List.take_left] at hup
  exact ⟨server, l', (hyields _).mpr
    ((hsteps.yields_iff _).mpr (Fueled.yields_loop_leave hturn)), hup⟩

/-- **Where one does not, more than the content is written**, if the upload
ends at all. -/
theorem not_fileUploaded (h : FilePart b cs l)
    (hhandler : ∃ h, s.currentHandler = some h ∧ h.canUpload s.currentUri = true)
    (hfit : lookaheadsFit b.length 0 cs ≠ true) :
    ¬ FileUploaded b stack name filename type s l cs := by
  rintro ⟨server, l', hrun, hfile⟩
  obtain ⟨t, ht, hyields⟩ := h.start stack name filename type hhandler
  have hpasses := h.passes
  rw [if_neg hfit] at hpasses
  obtain ⟨j, hj, hpass⟩ := hpasses
  obtain ⟨u, hsteps, hu⟩ := steps_of_passes stack h.isOpen
    (fun i hi => h.waits i (le_of_lt hi)) hpass ht
  have hloop := (hsteps.yields_iff _).mp ((hyields _).mp hrun)
  have hle : j ≤ (l.pending.take j).length := by
    have := (List.getElem?_eq_some_iff.mp hu.byte).1
    rw [List.length_take]
    omega
  obtain ⟨w', hw', hup⟩ := upload_sound hu.held hle hloop
  have heq := ((hup.calls rfl cs).mp hfile).1
  rw [heq] at hw'
  omega

/-- **The upload handler gets the file exactly when no read behind a CR LF
`--` in it goes past its end**, and its size fits the counter. -/
theorem fileUploaded_iff (h : FilePart b cs l)
    (hhandler : ∃ h, s.currentHandler = some h ∧ h.canUpload s.currentUri = true) :
    FileUploaded b stack name filename type s l cs ↔
      lookaheadsFit b.length 0 cs = true ∧ cs.length < 2 ^ 32 := by
  by_cases hfit : lookaheadsFit b.length 0 cs = true
  · obtain ⟨server, l', hrun, hup⟩ := uploadFile_yields stack name filename type h
      hhandler hfit
    have hcalls := hup.calls rfl cs
    rw [eq_self_iff_true, true_and] at hcalls
    constructor
    · rintro ⟨server', l'', hrun', hfile⟩
      cases hrun'.unique hrun
      exact ⟨hfit, hcalls.mp hfile⟩
    · rintro ⟨-, hlt⟩
      exact ⟨server, l', hrun, hcalls.mpr hlt⟩
  · exact iff_of_false (not_fileUploaded h hhandler hfit) (fun h => hfit h.1)

/-- A server whose handler takes uploads. -/
def uploadServer : ESP31BWebServer :=
  { init [] with currentHandler := some ⟨fun _ _ => true, fun _ => true⟩ }

/-- A connection on which everything has arrived. -/
def arrived (bytes : List UInt8) : Link := ⟨bytes, 0, 1000, [], false⟩

theorem filePart_arrived {b c : List UInt8}
    (hfirst : ∀ j < c.length, ¬ marker ++ b <+: (c ++ (marker ++ b)).drop j) :
    FilePart b c (arrived (c ++ (marker ++ b))) where
  isOpen := rfl
  pending := ⟨[], by simp [arrived, Link.pending]⟩
  first := hfirst
  waits _ _ _ _ _ := by
    rw [Link.waitAt_of_sched_nil rfl]
    exact Nat.succ_pos 999

/-- A file CR LF `--xy` before the boundary `ab`. -/
theorem fileUploaded_marker_inside :
    FileUploaded [0x61, 0x62] [] [] [] [] uploadServer
      (arrived ([0x0D, 0x0A, 0x2D, 0x2D, 0x78, 0x79] ++ (marker ++ [0x61, 0x62])))
      [0x0D, 0x0A, 0x2D, 0x2D, 0x78, 0x79] :=
  (fileUploaded_iff (filePart_arrived (by decide)) ⟨_, rfl, rfl⟩).mpr (by decide)

/-- **A file CR LF `--x` before the boundary `ab`** is not received: the two
bytes behind its CR LF `--` are `x` and the CR of the delimiter. -/
theorem not_fileUploaded_marker_at_end :
    ∃ b c : List UInt8, b ≠ [] ∧ 0x0D ∉ b ∧ FilePart b c (arrived (c ++ (marker ++ b))) ∧
      ¬ FileUploaded b [] [] [] [] uploadServer (arrived (c ++ (marker ++ b))) c :=
  ⟨[0x61, 0x62], [0x0D, 0x0A, 0x2D, 0x2D, 0x78], by decide, by decide,
    filePart_arrived (by decide),
    not_fileUploaded (filePart_arrived (by decide)) ⟨_, rfl, rfl⟩ (by decide)⟩

end ESP31BWebServer
