import Esp31b.ReceiveQueue

/-!
# Peeking more than a byte

`ClientContext::peekBytes` is written after `read(dst, size)`: the size is cut
to what is unread in the whole chain, and bytes are copied from the first
buffer. What it leaves out is the loop. What it shows is the beginning of what
a read would return (`peekBytes_eq`), and all of it exactly when the bytes
asked for lie in the first buffer (`showsRead_iff`).

`WiFiClient::peekBytes` waits until enough bytes are unread and then asks the
context for all of them. Losing the pcb meanwhile changes nothing that either
of the two looks at, so only deliveries are among what a wait brings.
-/

namespace ClientContext

namespace RxState

/-- `peekBytes(dst, size)`: what is returned, what is stored at `dst`, and the
context afterwards. -/
def peekBytes (s : RxState) (size : UInt32) : ℕ × List UInt8 × RxState :=
  match s.rxBuf with
  | [] => (0, [], s)
  | p :: _ =>
    let size := min size.toNat s.getSize.toNat
    let bufSize := p.len - s.rxBufOffset
    let copySize := min size bufSize
    (copySize, (p.payload.drop s.rxBufOffset).take copySize, s)

/-- The bytes behind the offset in the first buffer. -/
def firstLeft (s : RxState) : ℕ :=
  match s.rxBuf with
  | [] => 0
  | p :: _ => p.len - s.rxBufOffset

/-- The offset is inside the first buffer. -/
def Inside (s : RxState) : Prop := ∀ p c, s.rxBuf = p :: c → s.rxBufOffset < p.len

theorem Valid.inside {s : RxState} (hs : s.Valid) : s.Inside := hs.offset

/-- **Peeking shows what reading would return**: as many bytes as are asked
for and there, the bytes a read stores, and the context as it was. -/
def ShowsRead (s : RxState) (size : UInt32) : Prop :=
  ∃ bytes t, s.readBytes size = some (bytes, t) ∧
    s.peekBytes size = (min size.toNat s.getSize.toNat, bytes, s)

variable {s : RxState}

/-- A prefix of the unread bytes that lies in the first buffer. -/
theorem take_chained {p : Pbuf} {c : List Pbuf} (h : s.rxBuf = p :: c) (hin : s.Inside) {k : ℕ}
    (hk : k ≤ p.len - s.rxBufOffset) :
    s.chained.take k = (p.payload.drop s.rxBufOffset).take k := by
  have hoff : s.rxBufOffset < p.payload.length := hin p c h
  rw [chained, h, Pbuf.bytes_cons, List.drop_append_of_le_length hoff.le,
    List.take_append_of_le_length]
  rw [List.length_drop]
  exact hk

/-- **What is peeked is the beginning of what is unread**, cut at the end of
the first buffer. -/
theorem peekBytes_eq (hin : s.Inside) (size : UInt32) :
    s.peekBytes size =
      (min (min size.toNat s.getSize.toNat) s.firstLeft,
        s.chained.take (min (min size.toNat s.getSize.toNat) s.firstLeft), s) := by
  unfold peekBytes firstLeft
  cases hbuf : s.rxBuf with
  | nil => simp
  | cons p c =>
    show (_, _, s) = _
    rw [take_chained hbuf hin (Nat.min_le_right _ _)]

/-- A read that stays in the first buffer takes one round. -/
theorem readBytes_of_le (hin : s.Inside) {size : UInt32}
    (hle : min size.toNat s.getSize.toNat ≤ s.firstLeft) :
    ∃ t, s.readBytes size = some (s.chained.take (min size.toNat s.getSize.toNat), t) := by
  unfold readBytes
  unfold firstLeft at hle
  cases hbuf : s.rxBuf with
  | nil => exact ⟨s, by simp [chained_of_null hbuf]⟩
  | cons p c =>
    simp only [hbuf] at hle
    show ∃ t, readLoop (min size.toNat s.getSize.toNat) s (min size.toNat s.getSize.toNat) [] =
        _
    generalize min size.toNat s.getSize.toNat = k at hle
    cases k with
    | zero => exact ⟨s, by simp [readLoop]⟩
    | succ k =>
      refine ⟨s.consume (k + 1), ?_⟩
      rw [take_chained hbuf hin hle, readLoop]
      simp only [hbuf, Nat.min_eq_left hle, Nat.sub_self, List.nil_append]
      rw [readLoop]

/-- **Peeking shows what reading would return exactly when the bytes asked for
are in the first buffer.** -/
theorem showsRead_iff (hin : s.Inside) (size : UInt32) :
    s.ShowsRead size ↔ min size.toNat s.getSize.toNat ≤ s.firstLeft := by
  constructor
  · rintro ⟨bytes, t, -, hpeek⟩
    rw [peekBytes_eq hin, Prod.mk.injEq] at hpeek
    exact min_eq_left_iff.mp hpeek.1
  · intro hle
    obtain ⟨t, hread⟩ := readBytes_of_le hin hle
    refine ⟨_, t, hread, ?_⟩
    rw [peekBytes_eq hin, Nat.min_eq_left hle]

/-- **In step with a byte queue, what is peeked is what comes next in it**,
if not all that was asked for. -/
theorem Refines.peekBytes_prefix {q : ByteQueue} (h : Refines s q) (size : UInt32) :
    (s.peekBytes size).2.1 <+: q.unread.take size.toNat := by
  rw [peekBytes_eq h.valid.inside, h.unread]
  exact List.take_prefix_take_left ((Nat.min_le_left _ _).trans (Nat.min_le_left _ _))

/-! ## Peeking through the client -/

/-- `WiFiClient::available`: the number of unread bytes as an `int`. -/
def available (s : RxState) : Int32 := s.getSize.toInt32

/-- What happens around one test of a waiting loop: what `millis()` reads, and
what comes in during the `delay(1)` after it. -/
structure Turn where
  millis : UInt32
  deliveries : List Delivery
  deriving DecidableEq, Repr

/-- The loop of `WiFiClient::peekBytes`. Each turn goes on while too little is
unread and the time-out has not passed. -/
def awaitBytes (startMillis timeout length : UInt32) : List Turn → RxState → RxState
  | [], s => s
  | turn :: turns, s =>
    if s.available < length.toInt32 ∧ turn.millis - startMillis < timeout then
      awaitBytes startMillis timeout length turns (turn.deliveries.foldl recv s)
    else s

/-- `WiFiClient::peekBytes(buffer, length)`, where `none` is a null `_client`. -/
def clientPeekBytes (startMillis timeout : UInt32) (turns : List Turn) (client : Option RxState)
    (length : UInt32) : ℕ × List UInt8 × Option RxState :=
  match client with
  | none => (0, [], none)
  | some s =>
    let s := awaitBytes startMillis timeout length turns s
    let count := if s.available < length.toInt32 then s.available.toUInt32 else length
    let (copied, bytes, s) := s.peekBytes count
    (copied, bytes, some s)

/-- An unsigned number below `2 ^ 31` is the same as an `int`. -/
theorem toInt_toInt32 {x : UInt32} (hx : x.toNat < 2 ^ 31) : x.toInt32.toInt = x.toNat :=
  BitVec.toInt_eq_toNat_of_lt (by rw [UInt32.toBitVec_toInt32, UInt32.toNat_toBitVec]; omega)

/-- As an `int` an unsigned number is never larger. -/
theorem toInt_toInt32_le (x : UInt32) : x.toInt32.toInt ≤ x.toNat := by
  have hcond := BitVec.toInt_eq_toNat_cond x.toBitVec
  have hlt := x.toNat_lt
  rw [UInt32.toNat_toBitVec] at hcond
  show x.toBitVec.toInt ≤ x.toNat
  split at hcond <;> omega

/-- With enough bytes unread the `int` comparison does not hold. -/
theorem not_available_lt {length : UInt32} (h : (length.toNat : ℤ) ≤ s.available.toInt) :
    ¬s.available < length.toInt32 := by
  have hlt : s.available.toInt < 2 ^ 31 := s.available.toInt_lt
  rw [Int32.lt_iff_toInt_lt, toInt_toInt32 (by omega)]
  omega

/-- With enough bytes unread nothing is waited for. -/
theorem awaitBytes_of_le {length : UInt32} (h : (length.toNat : ℤ) ≤ s.available.toInt)
    (startMillis timeout : UInt32) (turns : List Turn) :
    awaitBytes startMillis timeout length turns s = s := by
  cases turns with
  | nil => rfl
  | cons turn turns => exact if_neg (fun hand => not_available_lt h hand.1)

/-- **With enough bytes unread the client asks the context for all of them.** -/
theorem clientPeekBytes_of_le {length : UInt32} (h : (length.toNat : ℤ) ≤ s.available.toInt)
    (startMillis timeout : UInt32) (turns : List Turn) :
    clientPeekBytes startMillis timeout turns (some s) length
      = ((s.peekBytes length).1, (s.peekBytes length).2.1, some (s.peekBytes length).2.2) := by
  simp only [clientPeekBytes, awaitBytes_of_le h, if_neg (not_available_lt h)]

/-- **Peeking shows what reading would return only inside the first buffer.**
In every state of the context, `peekBytes` stores what a read would store if
and only if the bytes asked for and there lie in the first buffer of the
chain; and with `length` bytes unread `WiFiClient::peekBytes` delivers the next
`length` bytes if and only if they lie there. -/
theorem peekBytes_shows_iff (hin : s.Inside) :
    (∀ size : UInt32,
      s.ShowsRead size ↔ min size.toNat s.getSize.toNat ≤ s.firstLeft) ∧
    ∀ (startMillis timeout length : UInt32) (turns : List Turn),
      (length.toNat : ℤ) ≤ s.available.toInt →
      (clientPeekBytes startMillis timeout turns (some s) length
          = (length.toNat, s.chained.take length.toNat, some s) ↔
        length.toNat ≤ s.firstLeft) := by
  refine ⟨showsRead_iff hin, fun startMillis timeout length turns h => ?_⟩
  have hsize : min length.toNat s.getSize.toNat = length.toNat := by
    have hle : s.available.toInt ≤ s.getSize.toNat := toInt_toInt32_le s.getSize
    omega
  rw [clientPeekBytes_of_le h, peekBytes_eq hin, hsize]
  constructor
  · intro heq
    exact min_eq_left_iff.mp (congrArg Prod.fst heq)
  · intro hle
    rw [Nat.min_eq_left hle]

/-- A segment that lwIP delivers in two buffers. -/
def twoBuffers : Delivery := ⟨[[0x68, 0x65], [0x6C]], by decide, by decide⟩

/-- The context after it. -/
def crossing : RxState := ⟨true, [⟨[0x68, 0x65], 3, 1⟩, ⟨[0x6C], 1, 1⟩], 0, 0⟩

theorem valid_crossing : crossing.Valid where
  pcb := rfl
  wf := ⟨rfl, by decide, rfl, rfl, by decide, rfl, trivial⟩
  null := by decide
  offset := by
    intro p c h
    obtain ⟨rfl, -⟩ := List.cons.inj h
    decide

theorem peekBytes_shows_iff_crossing :
    crossing.ShowsRead 2 ∧
      clientPeekBytes 0 1000 [] (some crossing) 2 = (2, [0x68, 0x65], some crossing) :=
  ⟨((peekBytes_shows_iff valid_crossing.inside).1 2).mpr (by decide),
    ((peekBytes_shows_iff valid_crossing.inside).2 0 1000 2 [] (by decide)).mpr (by decide)⟩

/-- **Across a boundary less is shown.** Of three bytes that arrived in two
buffers a read stores three, and peeking, by the context and by the client,
two. -/
theorem peekBytes_not_shows :
    rx.run init [.recv twoBuffers] = some ([.none], crossing) ∧ crossing.Valid ∧
      crossing.getSize = 3 ∧
      (crossing.readBytes 3).map Prod.fst = some [0x68, 0x65, 0x6C] ∧
      crossing.peekBytes 3 = (2, [0x68, 0x65], crossing) ∧ ¬crossing.ShowsRead 3 ∧
      ((3 : UInt32).toNat : ℤ) ≤ crossing.available.toInt ∧
      clientPeekBytes 0 1000 [] (some crossing) 3 = (2, [0x68, 0x65], some crossing) := by
  have hpeek : crossing.peekBytes 3 = (2, [0x68, 0x65], crossing) := by decide
  refine ⟨by decide, valid_crossing, by decide, by decide, hpeek, ?_, by decide, by decide⟩
  rintro ⟨bytes, t, -, hshown⟩
  have hcount : 2 = min (3 : UInt32).toNat crossing.getSize.toNat :=
    congrArg Prod.fst (hpeek.symm.trans hshown)
  exact absurd hcount (by decide)

end RxState

end ClientContext
