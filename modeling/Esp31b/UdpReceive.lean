import Esp31b.ReceiveQueue

/-!
# Datagrams being read

`UdpContext` chains every datagram that lwIP hands to `_recv` behind the ones
before it, and `parsePacket` moves from one buffer of the chain to the next.
Where a datagram ends is not recorded: a buffer is taken for a datagram. And
whether the first buffer of the chain was selected already is a flag that
only `next` looks at; `read`, `peek`, `available` and `flush` act on the
first buffer either way.

`DatagramQueue` says what is meant: the datagrams received, how many of them
were selected, and what is unread of the last one selected. The context
answers as that queue does (`udp_refines_queue`) as long as every datagram
comes in one buffer and none is read before it is selected. The runs in
`not_datagrams` leave each of the two out.
-/

/-! ## The queue as it is meant -/

/-- What is done with the receive side of a UDP object. -/
inductive UdpRxOp where
  | recv (d : Delivery)
  | parsePacket
  | read
  | readBytes (size : ℕ)
  | peek
  | available
  | flush
  deriving DecidableEq, Repr

/-- What an operation answers. `read` answers -1 without a byte, and `peek` a
byte that is none of the datagram's when it looks behind its end. -/
inductive UdpRxAnswer where
  | none
  | char (c : Option UInt8)
  | bytes (bs : List UInt8)
  | size (n : ℕ)
  deriving DecidableEq, Repr

/-- **A queue of datagrams with its history**: all that were received, how
many were selected, and the unread part of the one selected last. -/
structure DatagramQueue where
  received : List (List UInt8)
  selected : ℕ
  unread : Option (List UInt8)
  deriving DecidableEq, Repr

namespace DatagramQueue

/-- One operation. Without a selected datagram `peek` answers 0. -/
def step (q : DatagramQueue) : UdpRxOp → Option (UdpRxAnswer × DatagramQueue)
  | .recv d => some (.none, { q with received := q.received ++ [d.payloads.flatten] })
  | .parsePacket =>
    match q.received[q.selected]? with
    | some d => some (.size d.length, { q with selected := q.selected + 1, unread := some d })
    | none => some (.size 0, { q with unread := none })
  | .read => some (.char (q.unread.bind List.head?),
      { q with unread := q.unread.map List.tail })
  | .readBytes size =>
    some (.bytes ((q.unread.getD []).take size),
      { q with unread := q.unread.map (List.drop size) })
  | .peek => some (.char (q.unread.elim (some 0) List.head?), q)
  | .available => some (.size (q.unread.getD []).length, q)
  | .flush => some (.none, { q with unread := q.unread.map (fun _ => []) })

/-- The queue as a component. -/
def queue : Transducer DatagramQueue UdpRxOp UdpRxAnswer := ⟨step⟩

/-- Nothing received. -/
def empty : DatagramQueue := ⟨[], 0, none⟩

end DatagramQueue

/-! ## The queue as it is kept -/

namespace UdpContext

/-- The receive side of a context: `_rx_buf`, `_first_buf_taken` and
`_rx_buf_offset`. -/
structure UdpRxState where
  rxBuf : List Pbuf
  firstBufTaken : Bool
  rxBufOffset : ℕ
  deriving DecidableEq, Repr

namespace UdpRxState

/-- `getSize()`. -/
def getSize (s : UdpRxState) : ℕ :=
  match s.rxBuf with
  | [] => 0
  | p :: _ => p.len - s.rxBufOffset

/-- `next()`. -/
def next (s : UdpRxState) : Bool × UdpRxState :=
  match s.rxBuf with
  | [] => (false, s)
  | p :: c =>
    if !s.firstBufTaken then (true, { s with firstBufTaken := true })
    else (!c.isEmpty, { s with rxBuf := Pbuf.pbufFree (p :: Pbuf.pbufRef c), rxBufOffset := 0 })

/-- `_consume(size)`. -/
def consume (s : UdpRxState) (size : ℕ) : UdpRxState :=
  { s with rxBufOffset := s.rxBufOffset + size }

/-- `read()`, where `none` is the -1. -/
def read (s : UdpRxState) : Option UInt8 × UdpRxState :=
  match s.rxBuf with
  | [] => (none, s)
  | p :: _ => if p.len = s.rxBufOffset then (none, s)
      else (p.payload[s.rxBufOffset]?, s.consume 1)

/-- `read(dst, size)`. -/
def readBytes (s : UdpRxState) (size : ℕ) : List UInt8 × UdpRxState :=
  match s.rxBuf with
  | [] => ([], s)
  | p :: _ =>
    let maxSize := p.len - s.rxBufOffset
    let size := if size < maxSize then size else maxSize
    ((p.payload.drop s.rxBufOffset).take size, s.consume size)

/-- `peek()`, where `none` is whatever lies behind the payload. -/
def peek (s : UdpRxState) : Option UInt8 :=
  match s.rxBuf with
  | [] => some 0
  | p :: _ => p.payload[s.rxBufOffset]?

/-- `flush()`. -/
def flush (s : UdpRxState) : UdpRxState :=
  match s.rxBuf with
  | [] => s
  | p :: _ => s.consume (p.len - s.rxBufOffset)

/-- `_recv` with a chain. -/
def recv (s : UdpRxState) (d : Delivery) : UdpRxState :=
  match s.rxBuf with
  | [] => ⟨Pbuf.chain d.payloads, false, 0⟩
  | _ :: _ => { s with rxBuf := Pbuf.pbufCat s.rxBuf (Pbuf.chain d.payloads) }

/-- `WiFiUDP::parsePacket()`. -/
def parsePacket (s : UdpRxState) : ℕ × UdpRxState :=
  if s.next.1 then (s.next.2.getSize, s.next.2) else (0, s.next.2)

/-- One operation; those of `WiFiUDP` that are not above only pass it on. -/
def step (s : UdpRxState) : UdpRxOp → Option (UdpRxAnswer × UdpRxState)
  | .recv d => some (.none, s.recv d)
  | .parsePacket => some (.size s.parsePacket.1, s.parsePacket.2)
  | .read => some (.char s.read.1, s.read.2)
  | .readBytes size => some (.bytes (s.readBytes size).1, (s.readBytes size).2)
  | .peek => some (.char s.peek, s)
  | .available => some (.size s.getSize, s)
  | .flush => some (.none, s.flush)

/-- The receive side as a component. -/
def udp : Transducer UdpRxState UdpRxOp UdpRxAnswer := ⟨step⟩

/-- Nothing received. -/
def init : UdpRxState := ⟨[], false, 0⟩

/-- There is a first buffer, and `parsePacket` has not been called for it. -/
def Unselected (s : UdpRxState) : Prop := s.rxBuf ≠ [] ∧ s.firstBufTaken = false

instance (s : UdpRxState) : Decidable s.Unselected := inferInstanceAs (Decidable (_ ∧ _))

/-- **One buffer a datagram, and none read before it is selected.** -/
def Tame (s : UdpRxState) : UdpRxOp → Prop
  | .recv d => d.payloads.length = 1
  | .parsePacket => True
  | .readBytes size => size = 0 ∨ ¬ s.Unselected
  | .read | .peek | .available | .flush => ¬ s.Unselected

instance (s : UdpRxState) : DecidablePred s.Tame
  | .recv _ => inferInstanceAs (Decidable (_ = _))
  | .parsePacket => inferInstanceAs (Decidable True)
  | .readBytes _ => inferInstanceAs (Decidable (_ ∨ _))
  | .read | .peek | .available | .flush => inferInstanceAs (Decidable (¬ _))

/-! ## Refinement -/

/-- **The context keeps the queue**: it has nothing, or datagrams of which
none is selected, or one that is and the others behind it. `past` are the
datagrams selected so far. -/
inductive Refines : UdpRxState → DatagramQueue → Prop where
  | null (taken : Bool) (offset : ℕ) (past : List (List UInt8)) :
    Refines ⟨[], taken, offset⟩ ⟨past, past.length, none⟩
  | unselected (p : Pbuf) (c : List Pbuf) (past : List (List UInt8))
      (hone : ∀ q ∈ p :: c, q.ref = 1) :
    Refines ⟨p :: c, false, 0⟩ ⟨past ++ (p :: c).map Pbuf.payload, past.length, none⟩
  | selected (p : Pbuf) (c : List Pbuf) (offset : ℕ) (past : List (List UInt8))
    (hone : ∀ q ∈ p :: c, q.ref = 1) (hoffset : offset ≤ p.len) :
    Refines ⟨p :: c, true, offset⟩
      ⟨past ++ c.map Pbuf.payload, past.length, some (p.payload.drop offset)⟩

variable {s : UdpRxState} {q : DatagramQueue}

/-- A buffer chained behind others changes nothing that is looked at. -/
theorem exists_pbufCat (p : Pbuf) (c : List Pbuf) (x : List UInt8)
    (hone : ∀ q ∈ p :: c, q.ref = 1) :
    ∃ p' c', Pbuf.pbufCat (p :: c) (Pbuf.chain [x]) = p' :: c' ∧ p'.payload = p.payload ∧
      c'.map Pbuf.payload = c.map Pbuf.payload ++ [x] ∧ ∀ q ∈ p' :: c', q.ref = 1 := by
  refine ⟨_, _, rfl, rfl, ?_, fun q hq => ?_⟩
  · show (c.map _ ++ Pbuf.chain [x]).map Pbuf.payload = _
    rw [List.map_append, List.map_map]
    rfl
  · have hq : q ∈ Pbuf.pbufCat (p :: c) (Pbuf.chain [x]) := hq
    rw [Pbuf.chain, Pbuf.pbufCat, List.mem_append, List.mem_map] at hq
    rcases hq with ⟨r, hr, rfl⟩ | hnew
    · exact hone r hr
    · rw [Pbuf.chain, List.mem_singleton] at hnew
      rw [hnew]

/-- **A datagram of one buffer** is chained behind the others. -/
theorem Refines.recv (h : Refines s q) {d : Delivery} (hone : d.payloads.length = 1) :
    Refines (s.recv d) { q with received := q.received ++ [d.payloads.flatten] } := by
  obtain ⟨payloads, hne, hfull⟩ := d
  obtain ⟨x, rfl⟩ := List.length_eq_one_iff.mp hone
  have hflat : [x].flatten = x := List.append_nil x
  dsimp only
  rw [hflat]
  cases h with
  | null taken offset past =>
    exact .unselected _ [] past (fun q hq => by rw [List.mem_singleton.mp hq])
  | unselected p c past hones =>
    obtain ⟨p', c', hcat, hp, hc, hones'⟩ := exists_pbufCat p c x hones
    have hchained := Refines.unselected p' c' past hones'
    rw [List.map_cons, hp, hc, ← List.cons_append, ← List.append_assoc] at hchained
    show Refines ⟨Pbuf.pbufCat (p :: c) (Pbuf.chain [x]), false, 0⟩ _
    rw [hcat]
    exact hchained
  | selected p c offset past hones hoffset =>
    obtain ⟨p', c', hcat, hp, hc, hones'⟩ := exists_pbufCat p c x hones
    have hchained := Refines.selected p' c' offset past hones' (by rwa [Pbuf.len, hp])
    rw [hp, hc, ← List.append_assoc] at hchained
    show Refines ⟨Pbuf.pbufCat (p :: c) (Pbuf.chain [x]), true, offset⟩ _
    rw [hcat]
    exact hchained

/-- **`parsePacket` selects the next datagram**, or there is none. -/
theorem Refines.parsePacket (h : Refines s q) :
    ∃ q', q.step .parsePacket = some (.size s.parsePacket.1, q') ∧
      Refines s.parsePacket.2 q' := by
  cases h with
  | null taken offset past =>
    refine ⟨_, ?_, .null taken offset past⟩
    rw [DatagramQueue.step, List.getElem?_eq_none le_rfl]
    rfl
  | unselected p c past hones =>
    have hnext : (past ++ (p :: c).map Pbuf.payload)[past.length]? = some p.payload := by
      rw [List.map_cons, List.getElem?_append_right le_rfl, Nat.sub_self,
        List.getElem?_cons_zero]
    have hselected := Refines.selected p c 0 (past ++ [p.payload]) hones (Nat.zero_le _)
    rw [List.length_append, List.append_assoc] at hselected
    refine ⟨_, ?_, hselected⟩
    rw [DatagramQueue.step, hnext]
    rfl
  | selected p c offset past hones hoffset =>
    have hp := hones p List.mem_cons_self
    cases c with
    | nil =>
      -- the last buffer is freed, and nothing is selected any more
      have hfree : Pbuf.pbufFree [p] = [] := by
        rw [Pbuf.pbufFree, hp]
        rfl
      refine ⟨⟨past, past.length, none⟩, ?_, ?_⟩
      · rw [DatagramQueue.step, List.map_nil, List.append_nil, List.getElem?_eq_none le_rfl]
        rfl
      · show Refines ⟨Pbuf.pbufFree [p], true, 0⟩ _
        rw [hfree]
        exact .null true 0 past
    | cons r c =>
      have hnext : (past ++ (r :: c).map Pbuf.payload)[past.length]? = some r.payload := by
        rw [List.map_cons, List.getElem?_append_right le_rfl, Nat.sub_self,
          List.getElem?_cons_zero]
      have hr := hones r (List.mem_cons_of_mem p List.mem_cons_self)
      -- the reference taken on the rest keeps it when the first buffer is freed
      have hfree : Pbuf.pbufFree (p :: Pbuf.pbufRef (r :: c)) = r :: c := Pbuf.free_ref hp hr
      have hparse : UdpRxState.parsePacket ⟨p :: r :: c, true, offset⟩ =
          (r.len - 0, ⟨r :: c, true, 0⟩) := by
        show (UdpRxState.getSize ⟨Pbuf.pbufFree (p :: Pbuf.pbufRef (r :: c)), true, 0⟩,
          (⟨Pbuf.pbufFree (p :: Pbuf.pbufRef (r :: c)), true, 0⟩ : UdpRxState)) = _
        rw [hfree]
        rfl
      have hselected := Refines.selected r c 0 (past ++ [r.payload])
        (fun q hq => hones q (List.mem_cons_of_mem p hq)) (Nat.zero_le _)
      rw [List.length_append, List.append_assoc] at hselected
      rw [hparse]
      refine ⟨_, ?_, hselected⟩
      rw [DatagramQueue.step, hnext]
      rfl

section
variable {p : Pbuf} {c : List Pbuf} {past : List (List UInt8)} {offset : ℕ}

/-- Some more of the selected datagram is taken. -/
theorem Refines.forward (past : List (List UInt8)) (hones : ∀ q ∈ p :: c, q.ref = 1) {k : ℕ}
    (hk : offset + k ≤ p.len) :
    Refines ⟨p :: c, true, offset + k⟩
      ⟨past ++ c.map Pbuf.payload, past.length, some ((p.payload.drop offset).drop k)⟩ := by
  rw [List.drop_drop]
  exact .selected p c (offset + k) past hones hk

/-- A byte of the selected datagram, if there is one. -/
theorem read_selected (hoffset : offset ≤ p.len) :
    ∃ k, offset + k ≤ p.len ∧ (p.payload.drop offset).drop k = (p.payload.drop offset).tail ∧
      UdpRxState.read ⟨p :: c, true, offset⟩
        = ((p.payload.drop offset).head?, ⟨p :: c, true, offset + k⟩) := by
  rw [List.head?_drop]
  by_cases hend : p.len = offset
  · have hnil : p.payload.drop offset = [] := List.drop_eq_nil_of_le hend.le
    refine ⟨0, hoffset, by rw [hnil]; rfl, ?_⟩
    rw [UdpRxState.read]
    dsimp only
    rw [if_pos hend, List.getElem?_eq_none hend.le]
    rfl
  · refine ⟨1, by omega, List.drop_one, ?_⟩
    rw [UdpRxState.read]
    dsimp only
    rw [if_neg hend]
    rfl

/-- A run of them. -/
theorem readBytes_selected (hoffset : offset ≤ p.len) (size : ℕ) :
    ∃ k, offset + k ≤ p.len ∧ (p.payload.drop offset).drop k =
      (p.payload.drop offset).drop size ∧
      UdpRxState.readBytes ⟨p :: c, true, offset⟩ size
        = ((p.payload.drop offset).take size, ⟨p :: c, true, offset + k⟩) := by
  have hlen : (p.payload.drop offset).length = p.len - offset := List.length_drop
  rw [UdpRxState.readBytes]
  dsimp only
  by_cases hless : size < p.len - offset
  · rw [if_pos hless]
    exact ⟨size, by omega, rfl, rfl⟩
  · rw [if_neg hless]
    refine ⟨p.len - offset, by omega, ?_, ?_⟩
    · rw [List.drop_eq_nil_of_le (by omega), List.drop_eq_nil_of_le (by omega)]
    · rw [List.take_of_length_le (by omega), List.take_of_length_le (by omega)]
      rfl

end

/-- **Every admitted operation is answered as the queue answers it.** -/
theorem Refines.step (h : Refines s q) {e : UdpRxOp} (htame : s.Tame e) :
    ∃ o s' q', s.step e = some (o, s') ∧ q.step e = some (o, q') ∧ Refines s' q' := by
  cases e with
  | recv d => exact ⟨_, _, _, rfl, rfl, h.recv htame⟩
  | parsePacket =>
    obtain ⟨q', hq', hR⟩ := h.parsePacket
    exact ⟨_, _, q', rfl, hq', hR⟩
  | read =>
    cases h with
    | null taken offset past => exact ⟨_, _, _, rfl, rfl, .null taken offset past⟩
    | unselected p c past hones => exact absurd ⟨List.cons_ne_nil _ _, rfl⟩ htame
    | selected p c offset past hones hoffset =>
      obtain ⟨k, hk, htail, hread⟩ := read_selected (c := c) hoffset
      have hforward := Refines.forward past hones hk
      rw [htail] at hforward
      exact ⟨_, _, _, rfl, by rw [hread]; rfl, by rw [hread]; exact hforward⟩
  | readBytes size =>
    cases h with
    | null taken offset past =>
      refine ⟨.bytes [], _, _, rfl, ?_, .null taken offset past⟩
      rw [DatagramQueue.step, Option.getD_none, List.take_nil]
      rfl
    | unselected p c past hones =>
      -- only a read of no bytes is tame here
      obtain rfl := htame.resolve_right (fun hsel => hsel ⟨List.cons_ne_nil _ _, rfl⟩)
      have hnothing : UdpRxState.readBytes ⟨p :: c, false, 0⟩ 0 = ([], ⟨p :: c, false, 0⟩) := by
        rw [UdpRxState.readBytes]
        dsimp only
        rw [ite_eq_left_iff.mpr (fun h0 => by omega)]
        rfl
      exact ⟨.bytes [], _, _, by rw [UdpRxState.step, hnothing], rfl,
        .unselected p c past hones⟩
    | selected p c offset past hones hoffset =>
      obtain ⟨k, hk, hdrop, hread⟩ := readBytes_selected (c := c) hoffset size
      have hforward := Refines.forward past hones hk
      rw [hdrop] at hforward
      exact ⟨_, _, _, rfl, by rw [hread]; rfl, by rw [hread]; exact hforward⟩
  | peek =>
    cases h with
    | null taken offset past => exact ⟨_, _, _, rfl, rfl, .null taken offset past⟩
    | unselected p c past hones => exact absurd ⟨List.cons_ne_nil _ _, rfl⟩ htame
    | selected p c offset past hones hoffset =>
      refine ⟨_, _, _, rfl, ?_, .selected p c offset past hones hoffset⟩
      rw [DatagramQueue.step, Option.elim_some, List.head?_drop]
      rfl
  | available =>
    cases h with
    | null taken offset past => exact ⟨_, _, _, rfl, rfl, .null taken offset past⟩
    | unselected p c past hones => exact absurd ⟨List.cons_ne_nil _ _, rfl⟩ htame
    | selected p c offset past hones hoffset =>
      refine ⟨_, _, _, rfl, ?_, .selected p c offset past hones hoffset⟩
      rw [DatagramQueue.step, Option.getD_some, List.length_drop]
      rfl
  | flush =>
    cases h with
    | null taken offset past => exact ⟨_, _, _, rfl, rfl, .null taken offset past⟩
    | unselected p c past hones => exact absurd ⟨List.cons_ne_nil _ _, rfl⟩ htame
    | selected p c offset past hones hoffset =>
      have hforward := Refines.forward past hones
        (show offset + (p.len - offset) ≤ p.len by omega)
      rw [List.drop_eq_nil_of_le (by rw [List.length_drop]; rfl)] at hforward
      exact ⟨_, _, _, rfl, rfl, hforward⟩

/-- **Datagrams are kept apart.** In every sequence of arrivals and calls in
which each datagram comes in one buffer and none is read before it is
selected, the context answers as the queue of the datagrams does: `parsePacket`
selects them one after the other and answers their lengths, and what is read
until the next selection is the unread part of the one selected. -/
theorem udp_refines_queue (es : List UdpRxOp) (h : udp.Along Tame init es) :
    ∃ os s q, udp.run init es = some (os, s) ∧
      DatagramQueue.queue.run DatagramQueue.empty es = some (os, q) ∧
      s.Refines q :=
  Transducer.run_refines (fun _ _ _ hR hP => hR.step hP) (.null false 0 []) h

/-- Two datagrams arrive, the second while the first is being read; the third
when there was nothing left. -/
def threeDatagrams : List UdpRxOp :=
  [.recv ⟨[[5, 6]], by decide, by decide⟩, .parsePacket, .read,
    .recv ⟨[[7]], by decide, by decide⟩, .available, .parsePacket, .readBytes 4, .parsePacket,
    .recv ⟨[[8]], by decide, by decide⟩,
    .parsePacket, .peek]

theorem threeDatagrams_refine :
    ∃ os s q, udp.run init threeDatagrams = some (os, s) ∧
      DatagramQueue.queue.run DatagramQueue.empty threeDatagrams = some (os, q) ∧ s.Refines q :=
  udp_refines_queue threeDatagrams (by decide)

/-- **A datagram of two buffers is presented as two**, each shorter than it;
and one that was not selected is there to be read, so that less than all of it
is left when it is. -/
theorem not_datagrams :
    (udp.run init [.recv ⟨[[1, 2], [3]], by decide, by decide⟩, .parsePacket,
        .parsePacket]).map Prod.fst = some [.none, .size 2, .size 1] ∧
      (DatagramQueue.queue.run DatagramQueue.empty
        [.recv ⟨[[1, 2], [3]], by decide, by decide⟩, .parsePacket, .parsePacket]).map Prod.fst
        = some [.none, .size 3, .size 0] ∧
      (udp.run init [.recv ⟨[[1, 2]], by decide, by decide⟩, .available, .read,
        .parsePacket]).map Prod.fst
        = some [.none, .size 2, .char (some 1), .size 1] ∧
      (DatagramQueue.queue.run DatagramQueue.empty
        [.recv ⟨[[1, 2]], by decide, by decide⟩, .available, .read, .parsePacket]).map Prod.fst
        = some [.none, .size 0, .char none, .size 2] := by
  decide

end UdpRxState

end UdpContext
