import Esp31b.Pbuf
import Esp31b.Transducer

/-!
# The TCP receive queue

What lwIP receives for a connection it hands to `_recv` as a chain of
packet buffers, and `ClientContext` keeps one chain with an offset into its
first buffer. Reads walk along the chain; a buffer that is finished is
dropped, and only then is the window opened by its length. New chains are
appended at any time in between.

`ByteQueue` says what the queue is for: everything received so far, and how
much of it has been handed out or discarded. `RxState.Refines` couples the
two – the unread bytes are the chain's bytes behind the offset, and what has
not been credited to the window is exactly what is still chained, the read
part of the first buffer included. `rx_refines_queue` is the refinement over
whole histories.

Two things are not as a byte queue would have them. `read()` and `peek()` on
an empty queue return 0, a byte nobody sent, and leave it to the caller to
ask `getSize` first. And the chain's length is a 16-bit number that includes
the already read part of the first buffer, so it is the uncredited bytes,
not the unread ones, that have to fit – which is what the TCP window, opened
only by the credits, sees to.
-/

/-! ## The queue as it is meant -/

/-- **A byte queue with its history**: all bytes received, and how many of
them were handed out or discarded. -/
structure ByteQueue where
  received : List UInt8
  taken : ℕ
  deriving DecidableEq, Repr

/-- A delivery: a chain of one or more non-empty runs of payload. -/
structure Delivery where
  payloads : List (List UInt8)
  ne : payloads ≠ []
  full : ∀ d ∈ payloads, d ≠ []
  deriving DecidableEq, Repr

/-- What is done with a receive queue. -/
inductive RxOp where
  | recv (d : Delivery)
  | read
  | readBytes (size : UInt32)
  | peek
  | getSize
  | flush
  deriving DecidableEq, Repr

/-- What an operation answers. -/
inductive RxAnswer where
  | none
  | char (c : UInt8)
  | bytes (bs : List UInt8)
  | size (n : UInt32)
  deriving DecidableEq, Repr

namespace ByteQueue

/-- The bytes still to be handed out. -/
def unread (q : ByteQueue) : List UInt8 := q.received.drop q.taken

/-- One operation. On an empty queue `read` and `peek` answer the filler 0. -/
def step (q : ByteQueue) : RxOp → Option (RxAnswer × ByteQueue)
  | .recv d => some (.none, { q with received := q.received ++ d.payloads.flatten })
  | .read => some (.char (q.unread.headD 0),
      { q with taken := q.taken + (q.unread.take 1).length })
  | .readBytes size =>
    some (.bytes (q.unread.take size.toNat),
      { q with taken := q.taken + (q.unread.take size.toNat).length })
  | .peek => some (.char (q.unread.headD 0), q)
  | .getSize => some (.size (UInt32.ofNat q.unread.length), q)
  | .flush => some (.none, { q with taken := q.received.length })

/-- Taking some of the unread bytes leaves the others. -/
theorem unread_take (q : ByteQueue) (k : ℕ) :
    unread { q with taken := q.taken + (q.unread.take k).length } = q.unread.drop k := by
  simp only [unread]
  rw [List.drop_drop, List.length_take, List.length_drop]
  rcases Nat.le_total k (q.received.length - q.taken) with h | h
  · rw [Nat.min_eq_left h]
  · rw [Nat.min_eq_right h, List.drop_eq_nil_of_le (by omega),
      List.drop_eq_nil_of_le (by omega)]

/-- The byte queue as a component. -/
def queue : Transducer ByteQueue RxOp RxAnswer := ⟨step⟩

/-- The queue of a fresh connection. -/
def empty : ByteQueue := ⟨[], 0⟩

end ByteQueue

/-! ## The queue as it is kept -/

namespace ClientContext

/-- The receive side of a connection: whether it has a pcb, `_rx_buf`,
`_rx_buf_offset` and the sum of the `tcp_recved` credits. -/
structure RxState where
  pcb : Bool
  rxBuf : List Pbuf
  rxBufOffset : ℕ
  credits : ℕ
  deriving DecidableEq, Repr

namespace RxState

/-- `if(_pcb) tcp_recved(_pcb, len)`. -/
def tcpRecved (s : RxState) (len : ℕ) : RxState :=
  if s.pcb then { s with credits := s.credits + len } else s

/-- `getSize()`. -/
def getSize (s : RxState) : UInt32 :=
  match s.rxBuf with
  | [] => 0
  | p :: _ => UInt32.ofNat p.totLen.toNat - UInt32.ofNat s.rxBufOffset

/-- `_consume(size)`: forward in the first buffer, or on to the next one,
crediting the finished one. -/
def consume (s : RxState) (size : ℕ) : RxState :=
  match s.rxBuf with
  | [] => s
  | p :: c =>
    let left : ℤ := p.len - s.rxBufOffset - size
    if left > 0 then { s with rxBufOffset := s.rxBufOffset + size }
    else if c = [] then { s.tcpRecved p.len with rxBuf := [], rxBufOffset := 0 }
    else { s.tcpRecved p.len with
      rxBuf := Pbuf.pbufFree (p :: Pbuf.pbufRef c)
      rxBufOffset := 0 }

/-- `peek()`. -/
def peek (s : RxState) : UInt8 :=
  match s.rxBuf with
  | [] => 0
  | p :: _ => p.payload.getD s.rxBufOffset 0

/-- `read()`. -/
def read (s : RxState) : UInt8 × RxState :=
  match s.rxBuf with
  | [] => (0, s)
  | p :: _ => (p.payload.getD s.rxBufOffset 0, s.consume 1)

/-- The loop of `read(dst, size)`, with the bytes copied so far. It would
follow a null pointer if the chain ended early, and never end if a buffer
gave nothing. -/
def readLoop : ℕ → RxState → ℕ → List UInt8 → Option (List UInt8 × RxState)
  | _, s, 0, dst => some (dst, s)
  | 0, _, _ + 1, _ => none
  | fuel + 1, s, size + 1, dst =>
    match s.rxBuf with
    | [] => none
    | p :: _ =>
      let bufSize := p.len - s.rxBufOffset
      let copySize := min (size + 1) bufSize
      readLoop fuel (s.consume copySize) (size + 1 - copySize)
        (dst ++ (p.payload.drop s.rxBufOffset).take copySize)

/-- `read(dst, size)`. -/
def readBytes (s : RxState) (size : UInt32) : Option (List UInt8 × RxState) :=
  match s.rxBuf with
  | [] => some ([], s)
  | _ :: _ =>
    let size := min size.toNat s.getSize.toNat
    readLoop size s size []

/-- `flush()`. -/
def flush (s : RxState) : RxState :=
  match s.rxBuf with
  | [] => s
  | p :: _ => { s.tcpRecved p.totLen.toNat with rxBuf := [], rxBufOffset := 0 }

/-- `_recv` with a chain. -/
def recv (s : RxState) (d : Delivery) : RxState :=
  match s.rxBuf with
  | [] => { s with rxBuf := Pbuf.chain d.payloads, rxBufOffset := 0 }
  | _ :: _ => { s with rxBuf := Pbuf.pbufCat s.rxBuf (Pbuf.chain d.payloads) }

/-- One operation. -/
def step (s : RxState) : RxOp → Option (RxAnswer × RxState)
  | .recv d => some (.none, s.recv d)
  | .read => some (.char s.read.1, s.read.2)
  | .readBytes size => (s.readBytes size).map (fun r => (.bytes r.1, r.2))
  | .peek => some (.char s.peek, s)
  | .getSize => some (.size s.getSize, s)
  | .flush => some (.none, s.flush)

/-- The receive side as a component. -/
def rx : Transducer RxState RxOp RxAnswer := ⟨step⟩

/-- A fresh open connection. -/
def init : RxState := ⟨true, [], 0, 0⟩

/-- `tot_len` of the chain in `_rx_buf`. -/
def totLen (s : RxState) : ℕ :=
  match s.rxBuf with
  | [] => 0
  | p :: _ => p.totLen.toNat

/-- **The window condition**: a delivery fits together with everything that
is still chained, the read part of the first buffer included. -/
def Fits (s : RxState) : RxOp → Prop
  | .recv d => Pbuf.total s.rxBuf + d.payloads.flatten.length ≤ 65535
  | _ => True

instance (s : RxState) : DecidablePred s.Fits
  | .recv d => inferInstanceAs
      (Decidable (Pbuf.total s.rxBuf + d.payloads.flatten.length ≤ 65535))
  | .read | .readBytes _ | .peek | .getSize | .flush => inferInstanceAs (Decidable True)

/-! ## One operation

Every operation is described by what it does to two quantities: the bytes
behind the offset, and the bytes either credited or still chained. -/

/-- The unread bytes of the chain. -/
def chained (s : RxState) : List UInt8 := (Pbuf.bytes s.rxBuf).drop s.rxBufOffset

/-- Everything credited to the window or still chained. -/
def accounted (s : RxState) : ℕ := s.credits + Pbuf.total s.rxBuf

/-- An open connection's chain: well formed, and the offset inside its first
buffer. -/
structure Valid (s : RxState) : Prop where
  pcb : s.pcb = true
  wf : Pbuf.WellFormed s.rxBuf
  null : s.rxBuf = [] → s.rxBufOffset = 0
  offset : ∀ p c, s.rxBuf = p :: c → s.rxBufOffset < p.len

theorem valid_init : init.Valid := ⟨rfl, trivial, fun _ => rfl, by simp [init]⟩

theorem chained_of_null {s : RxState} (h : s.rxBuf = []) : s.chained = [] := by
  simp [chained, h]

/-- In the first buffer the unread bytes start at the offset. -/
theorem chained_of_cons {s : RxState} (hs : s.Valid) {p : Pbuf} {c : List Pbuf}
    (h : s.rxBuf = p :: c) :
    s.chained = p.payload.drop s.rxBufOffset ++ Pbuf.bytes c := by
  have hoff : s.rxBufOffset ≤ p.payload.length := (hs.offset p c h).le
  rw [chained, h, Pbuf.bytes_cons, List.drop_append_of_le_length hoff]

/-- **A null chain and only a null chain has nothing unread.** -/
theorem chained_pos {s : RxState} (hs : s.Valid) {p : Pbuf} {c : List Pbuf}
    (h : s.rxBuf = p :: c) : p.len - s.rxBufOffset ≤ s.chained.length ∧
      0 < p.len - s.rxBufOffset := by
  have hoff := hs.offset p c h
  rw [chained_of_cons hs h, List.length_append, List.length_drop]
  simp only [Pbuf.len] at hoff ⊢
  omega

/-- `getSize` is the number of unread bytes. -/
theorem getSize_eq {s : RxState} (hs : s.Valid) :
    s.getSize = UInt32.ofNat s.chained.length := by
  unfold getSize
  cases hbuf : s.rxBuf with
  | nil => simp [chained, hbuf]
  | cons p c =>
    have hoff := hs.offset p c hbuf
    have hwf := hs.wf
    rw [hbuf] at hwf
    simp only [chained, hbuf, hwf.totLen, List.length_drop]
    rw [UInt32.ofNat_sub (by rw [← Pbuf.total, Pbuf.total_cons]; omega), Pbuf.total]

theorem chained_length_lt {s : RxState} (hs : s.Valid) : s.chained.length < 2 ^ 32 := by
  cases hbuf : s.rxBuf with
  | nil => simp [chained, hbuf]
  | cons p c =>
    have hwf := hs.wf
    rw [hbuf] at hwf
    have htot := hwf.totLen
    have hlt := p.totLen.toNat_lt
    rw [chained, List.length_drop, hbuf, ← Pbuf.total]
    omega

/-- **Consuming inside the first buffer** drops that many unread bytes and
moves a finished buffer from the chain to the credits. -/
theorem consume_spec {s : RxState} (hs : s.Valid) {p : Pbuf} {c : List Pbuf}
    (hbuf : s.rxBuf = p :: c) (size : ℕ) (hle : s.rxBufOffset + size ≤ p.len) :
    (s.consume size).Valid ∧ (s.consume size).chained = s.chained.drop size ∧
      (s.consume size).accounted = s.accounted := by
  have hwf := hs.wf
  rw [hbuf] at hwf
  have hpcb := hs.pcb
  unfold consume
  simp only [hbuf]
  split
  · refine ⟨⟨hs.pcb, hwf, by simp, ?_⟩, ?_, by simp [accounted, hbuf]⟩
    · intro q d hq
      simp only [List.cons.injEq] at hq
      obtain ⟨rfl, rfl⟩ := hq
      simp only
      omega
    · simp only [chained, hbuf]
      rw [List.drop_drop]
  · have heq : s.rxBufOffset + size = p.len := by omega
    have hdrop : s.chained.drop size = Pbuf.bytes c := by
      rw [chained, hbuf, List.drop_drop, heq, Pbuf.bytes_cons]
      exact List.drop_left
    split
    · rename_i hc
      subst hc
      refine ⟨⟨by simp [tcpRecved, hpcb], trivial, fun _ => rfl, by simp⟩, ?_, ?_⟩
      · rw [hdrop]
        rfl
      · simp only [accounted, tcpRecved, hpcb, if_true, hbuf, Pbuf.total_cons, Pbuf.total_nil]
        omega
    · rename_i hc
      obtain ⟨q, d, rfl⟩ := List.exists_cons_of_ne_nil hc
      rw [hwf.free_ref]
      refine ⟨⟨by simp [tcpRecved, hpcb], hwf.2.2.2, by simp, ?_⟩, ?_, ?_⟩
      · intro q' d' hq
        simp only [List.cons.injEq] at hq
        obtain ⟨rfl, rfl⟩ := hq
        exact hwf.2.2.2.len_pos
      · rw [hdrop]
        rfl
      · simp only [accounted, tcpRecved, hpcb, if_true, hbuf, Pbuf.total_cons]
        omega

/-- **The copy loop** hands out the next `size` bytes and terminates, with as
many rounds as bytes being enough. -/
theorem readLoop_spec {s : RxState} (hs : s.Valid) (fuel size : ℕ) (dst : List UInt8)
    (hfuel : size ≤ fuel) (hsize : size ≤ s.chained.length) :
    ∃ t, readLoop fuel s size dst = some (dst ++ s.chained.take size, t) ∧ t.Valid ∧
      t.chained = s.chained.drop size ∧ t.accounted = s.accounted := by
  induction fuel generalizing s size dst with
  | zero =>
    obtain rfl : size = 0 := by omega
    exact ⟨s, by simp [readLoop], hs, by simp, rfl⟩
  | succ fuel ih =>
    cases size with
    | zero => exact ⟨s, by simp [readLoop], hs, by simp, rfl⟩
    | succ size =>
      cases hbuf : s.rxBuf with
      | nil => simp [chained_of_null hbuf] at hsize
      | cons p c =>
        obtain ⟨-, hpos⟩ := chained_pos hs hbuf
        have hoff := hs.offset p c hbuf
        generalize hk : min (size + 1) (p.len - s.rxBufOffset) = k
        obtain ⟨hv, hc, ha⟩ := consume_spec hs hbuf k (by omega)
        obtain ⟨t, hloop, ht, htc, hta⟩ := ih hv (size + 1 - k)
          (dst ++ (p.payload.drop s.rxBufOffset).take k) (by omega)
          (by rw [hc, List.length_drop]; omega)
        refine ⟨t, ?_, ht, ?_, hta.trans ha⟩
        · rw [readLoop]
          simp only [hbuf, hk]
          rw [hloop, hc, List.append_assoc]
          -- the copied run is what the chain starts with
          have hrun : (p.payload.drop s.rxBufOffset).take k = s.chained.take k := by
            rw [chained_of_cons hs hbuf, List.take_append_of_le_length]
            rw [List.length_drop]
            simp only [Pbuf.len] at hk
            omega
          rw [hrun, ← List.take_add, Nat.add_sub_cancel' (by omega)]
        · rw [htc, hc, List.drop_drop, Nat.add_sub_cancel' (by omega)]

/-- A delivery that fits is appended to the unread bytes. -/
theorem recv_spec {s : RxState} (hs : s.Valid) (d : Delivery) (hfit : s.Fits (.recv d)) :
    (s.recv d).Valid ∧ (s.recv d).chained = s.chained ++ d.payloads.flatten ∧
      (s.recv d).accounted = s.accounted + d.payloads.flatten.length := by
  have hfit : Pbuf.total s.rxBuf + d.payloads.flatten.length ≤ 65535 := hfit
  have hwf : Pbuf.WellFormed (Pbuf.chain d.payloads) :=
    Pbuf.wellFormed_chain d.full (by omega)
  have htotal : Pbuf.total (Pbuf.chain d.payloads) = d.payloads.flatten.length := by
    rw [Pbuf.total, Pbuf.bytes_chain]
  unfold recv
  cases hbuf : s.rxBuf with
  | nil =>
    refine ⟨⟨hs.pcb, hwf, fun _ => rfl, ?_⟩, ?_, ?_⟩
    · intro p c hp
      simp only at hp
      rw [hp] at hwf
      exact hwf.len_pos
    · rw [chained_of_null hbuf]
      simp [chained]
    · simp [accounted, hbuf, htotal]
  | cons p c =>
    have hcat : Pbuf.WellFormed (Pbuf.pbufCat (p :: c) (Pbuf.chain d.payloads)) := by
      refine (hbuf ▸ hs.wf).cat hwf ?_
      rw [htotal, ← hbuf]
      omega
    refine ⟨⟨hs.pcb, hcat, ?_, ?_⟩, ?_, ?_⟩
    · intro hnil
      cases hd : Pbuf.chain d.payloads <;> simp [Pbuf.pbufCat, hd] at hnil
    · intro q e hq
      have hlen : q.len = p.len := by
        cases hd : Pbuf.chain d.payloads with
        | nil => simp_all [Pbuf.pbufCat]
        | cons r f =>
          simp only [Pbuf.pbufCat, hd, List.map_cons, List.cons_append, List.cons.injEq] at hq
          rw [← hq.1]
          rfl
      rw [hlen]
      exact hs.offset p c hbuf
    · simp only [chained, Pbuf.bytes_pbufCat, Pbuf.bytes_chain, hbuf]
      rw [List.drop_append_of_le_length]
      rw [Pbuf.bytes_cons, List.length_append]
      have := hs.offset p c hbuf
      simp only [Pbuf.len] at this
      omega
    · simp only [accounted, Pbuf.total, Pbuf.bytes_pbufCat, Pbuf.bytes_chain, hbuf,
        List.length_append]
      omega

/-- Flushing credits what is chained and leaves nothing unread. -/
theorem flush_spec {s : RxState} (hs : s.Valid) :
    s.flush.Valid ∧ s.flush.chained = [] ∧ s.flush.accounted = s.accounted := by
  unfold flush
  cases hbuf : s.rxBuf with
  | nil => exact ⟨hs, chained_of_null hbuf, rfl⟩
  | cons p c =>
    have hwf := hs.wf
    rw [hbuf] at hwf
    have hpcb := hs.pcb
    refine ⟨⟨by simp [tcpRecved, hpcb], trivial, fun _ => rfl, by simp⟩, rfl, ?_⟩
    simp only [accounted, tcpRecved, hpcb, if_true, hwf.totLen, hbuf, Pbuf.total_nil]
    omega

/-- The next byte, or the filler 0. -/
theorem peek_eq {s : RxState} (hs : s.Valid) : s.peek = s.chained.headD 0 := by
  unfold peek
  cases hbuf : s.rxBuf with
  | nil => simp [chained_of_null hbuf]
  | cons p c =>
    have hoff : s.rxBufOffset < p.payload.length := hs.offset p c hbuf
    rw [chained_of_cons hs hbuf, List.drop_eq_getElem_cons hoff]
    simp [List.getD_eq_getElem?_getD, hoff]

theorem read_spec {s : RxState} (hs : s.Valid) :
    s.read.1 = s.chained.headD 0 ∧ s.read.2.Valid ∧ s.read.2.chained = s.chained.drop 1 ∧
      s.read.2.accounted = s.accounted := by
  have hpeek := peek_eq hs
  unfold peek at hpeek
  unfold read
  cases hbuf : s.rxBuf with
  | nil =>
    rw [chained_of_null hbuf]
    exact ⟨rfl, hs, rfl, rfl⟩
  | cons p c =>
    rw [hbuf] at hpeek
    exact ⟨hpeek, consume_spec hs hbuf 1 (by have := hs.offset p c hbuf; omega)⟩

theorem readBytes_spec {s : RxState} (hs : s.Valid) (size : UInt32) :
    ∃ t, s.readBytes size = some (s.chained.take size.toNat, t) ∧ t.Valid ∧
      t.chained = s.chained.drop size.toNat ∧ t.accounted = s.accounted := by
  unfold readBytes
  cases hbuf : s.rxBuf with
  | nil =>
    rw [chained_of_null hbuf]
    exact ⟨s, by simp, hs, by simp [chained_of_null hbuf], rfl⟩
  | cons p c =>
    have hget : s.getSize.toNat = s.chained.length := by
      rw [getSize_eq hs]
      exact UInt32.toNat_ofNat_of_lt' (chained_length_lt hs)
    simp only [hget]
    obtain ⟨t, hloop, ht, htc, hta⟩ := readLoop_spec hs _ (min size.toNat s.chained.length)
      [] (le_refl _) (Nat.min_le_right _ _)
    refine ⟨t, ?_, ht, ?_, hta⟩
    · have hmin : s.chained.take (min size.toNat s.chained.length) =
        s.chained.take size.toNat :=
        List.take_eq_take_iff.mpr (by omega)
      rw [hloop, List.nil_append, hmin]
    · rw [htc]
      rcases Nat.le_total size.toNat s.chained.length with h | h
      · rw [Nat.min_eq_left h]
      · rw [Nat.min_eq_right h, List.drop_eq_nil_of_le h, List.drop_length]

/-! ## Whole histories -/

/-- **What is chained is the queue**: the unread bytes are the chain's bytes
behind the offset, and what is credited or chained is what was received. -/
structure Refines (s : RxState) (q : ByteQueue) : Prop where
  valid : s.Valid
  unread : q.unread = s.chained
  taken : q.taken ≤ q.received.length
  accounted : s.accounted = q.received.length

/-- Taking from both sides keeps them related. -/
theorem Refines.take {s t : RxState} {q : ByteQueue} (h : Refines s q) (k : ℕ) (ht : t.Valid)
    (hc : t.chained = s.chained.drop k) (ha : t.accounted = s.accounted) :
    Refines t { q with taken := q.taken + (q.unread.take k).length } where
  valid := ht
  unread := by rw [ByteQueue.unread_take, hc, h.unread]
  taken := by
    have := h.taken
    simp only [List.length_take, ByteQueue.unread, List.length_drop]
    omega
  accounted := ha.trans h.accounted

/-- **One operation answers as the queue does.** -/
theorem Refines.step {s : RxState} {q : ByteQueue} {e : RxOp} (h : Refines s q)
    (hfit : s.Fits e) :
    ∃ o t r, s.step e = some (o, t) ∧ q.step e = some (o, r) ∧ Refines t r := by
  cases e with
  | recv d =>
    obtain ⟨hv, hc, ha⟩ := recv_spec h.valid d hfit
    have htaken := h.taken
    refine ⟨_, _, _, rfl, rfl, ⟨hv, ?_, ?_, ?_⟩⟩
    · rw [hc, ← h.unread, ByteQueue.unread, ByteQueue.unread,
        List.drop_append_of_le_length htaken]
    · simp only [List.length_append]
      omega
    · rw [ha, h.accounted, List.length_append]
  | read =>
    obtain ⟨hout, hv, hc, ha⟩ := read_spec h.valid
    exact ⟨_, _, _, rfl, by rw [ByteQueue.step, hout, h.unread], h.unread ▸ h.take 1 hv hc ha⟩
  | readBytes size =>
    obtain ⟨t, heq, hv, hc, ha⟩ := readBytes_spec h.valid size
    exact ⟨_, _, _, by rw [RxState.step, heq]; rfl, by rw [ByteQueue.step, h.unread],
      h.unread ▸ h.take size.toNat hv hc ha⟩
  | peek =>
    exact ⟨_, _, _, rfl, by rw [ByteQueue.step, h.unread, ← peek_eq h.valid], h⟩
  | getSize =>
    exact ⟨_, _, _, rfl, by rw [ByteQueue.step, h.unread, ← getSize_eq h.valid], h⟩
  | flush =>
    obtain ⟨hv, hc, ha⟩ := flush_spec h.valid
    refine ⟨_, _, _, rfl, rfl, ⟨hv, ?_, le_refl _, ha.trans h.accounted⟩⟩
    rw [hc]
    exact List.drop_length

theorem totLen_eq {s : RxState} (hs : s.Valid) : s.totLen = Pbuf.total s.rxBuf := by
  unfold totLen
  cases hbuf : s.rxBuf with
  | nil => rfl
  | cons p c => exact (hbuf ▸ hs.wf).totLen

/-- With nothing unread the chain is null. -/
theorem rxBuf_of_chained_nil {s : RxState} (hs : s.Valid) (h : s.chained = []) :
    s.rxBuf = [] := by
  cases hbuf : s.rxBuf with
  | nil => rfl
  | cons p c =>
    have := chained_pos hs hbuf
    rw [h] at this
    simp only [List.length_nil] at this
    omega

/-- **The receive side is a byte queue that accounts for its window.** In
every history of deliveries that fit, reads of any size, peeks, size queries
and flushes, every operation returns, the answers are those of the queue,
`getSize` is the number of unread bytes, and the credits together with
`tot_len` of the chain are the bytes received – all of them credits once
nothing is unread. -/
theorem rx_refines_queue (es : List RxOp) (hfit : rx.Along Fits init es) :
    ∃ answers s q, rx.run init es = some (answers, s) ∧
      ByteQueue.queue.run ByteQueue.empty es = some (answers, q) ∧
      s.getSize.toNat = q.unread.length ∧ s.credits + s.totLen = q.received.length ∧
      (q.unread = [] → s.credits = q.received.length) := by
  obtain ⟨answers, s, q, hrun, hq, h⟩ := Transducer.run_refines (C := rx) (A := ByteQueue.queue)
    (R := Refines) (P := Fits) (fun _ _ _ hR hP => hR.step hP)
    (⟨valid_init, rfl, le_refl _, rfl⟩ : Refines init ByteQueue.empty) hfit
  have hacc : s.credits + s.totLen = q.received.length := by
    rw [totLen_eq h.valid, ← h.accounted, accounted]
  refine ⟨answers, s, q, hrun, hq, ?_, hacc, fun hempty => ?_⟩
  · rw [getSize_eq h.valid, h.unread]
    exact UInt32.toNat_ofNat_of_lt' (chained_length_lt h.valid)
  · rw [h.unread] at hempty
    rw [← hacc, totLen_eq h.valid, rxBuf_of_chained_nil h.valid hempty]
    rfl

/-- Two buffers, a read that stays in the first, a delivery behind them, and
a read across all three. -/
def acrossBuffers : List RxOp :=
  [.recv ⟨[[1, 2], [3]], by decide, by decide⟩, .read, .getSize,
    .recv ⟨[[4]], by decide, by decide⟩, .readBytes 9, .getSize]

theorem rx_refines_queue_acrossBuffers :
    rx.Along Fits init acrossBuffers ∧
      (rx.run init acrossBuffers).map Prod.fst
        = some [.none, .char 1, .size 2, .none, .bytes [2, 3, 4], .size 0] ∧
      ∃ answers s q, rx.run init acrossBuffers = some (answers, s) ∧
        ByteQueue.queue.run ByteQueue.empty acrossBuffers = some (answers, q) ∧
        s.getSize.toNat = q.unread.length ∧ s.credits + s.totLen = q.received.length ∧
        (q.unread = [] → s.credits = q.received.length) :=
  ⟨by decide, by decide, rx_refines_queue acrossBuffers (by decide)⟩

/-- One byte of a two-byte buffer is read, and a segment arrives behind it. -/
def readThenRecv (d : List UInt8) (hd : d ≠ []) : List RxOp :=
  [.recv ⟨[[1, 2]], by decide, by decide⟩, .read, .recv ⟨[d], by simp, by simpa using hd⟩]

/-- With a segment of 65534 bytes the 16-bit length of the chain wraps to 0. -/
theorem readThenRecv_wraps (d : List UInt8) (hd : d ≠ []) (hlen : d.length = 65534) :
    ∃ answers s q, rx.run init (readThenRecv d hd) = some (answers, s) ∧
      ByteQueue.queue.run ByteQueue.empty (readThenRecv d hd) = some (answers, q) ∧
      q.received.length = 65536 ∧ q.unread.length = 65535 ∧
      s.getSize.toNat = 2 ^ 32 - 1 ∧ s.credits + s.totLen = 0 := by
  refine ⟨[.none, .char 1, .none], ⟨true, [⟨[1, 2], 0, 1⟩, ⟨d, 65534, 1⟩], 1, 0⟩,
    ⟨[1, 2] ++ d, 1⟩, ?_, ?_, ?_, ?_, ?_, ?_⟩
  · simp [readThenRecv, rx, Transducer.run, step, recv, read, consume, init,
      Pbuf.chain, Pbuf.len, Pbuf.pbufCat, hlen]
  · simp [readThenRecv, ByteQueue.queue, Transducer.run, ByteQueue.step, ByteQueue.unread,
      ByteQueue.empty]
  · simp [hlen]
  · simp [ByteQueue.unread, hlen]
  · simp [getSize]
  · simp [totLen]

theorem replicate_bulk_ne_nil : List.replicate 65534 (0 : UInt8) ≠ [] := by
  rw [Ne, List.replicate_eq_nil_iff]
  decide

/-- **The two ways out of the byte queue.** A read on an open connection
that has received nothing returns a byte. And with 65535 bytes unread behind
a byte already read, `tot_len` wraps to 0: `getSize` is `2 ^ 32 - 1`, and the
credits and `tot_len` together are 0 after 65536 bytes received. -/
theorem rx_not_queue :
    (rx.run init [.read]).map Prod.fst = some [.char 0] ∧
      ∃ answers s q,
        rx.run init (readThenRecv (List.replicate 65534 0) replicate_bulk_ne_nil)
          = some (answers, s) ∧
        ByteQueue.queue.run ByteQueue.empty
            (readThenRecv (List.replicate 65534 0) replicate_bulk_ne_nil) = some (answers, q) ∧
        q.received.length = 65536 ∧ q.unread.length = 65535 ∧
        s.getSize.toNat = 2 ^ 32 - 1 ∧ s.credits + s.totLen = 0 :=
  ⟨by decide, readThenRecv_wraps _ replicate_bulk_ne_nil List.length_replicate⟩

end RxState

end ClientContext
