import Esp31b.HttpBody

/-!
# Nothing of a body is lost or repeated

`writeToStreamDataBlock` copies from a connection to a stream that may take
less than it is given, and be in error or not. A turn reads what has arrived,
and what the stream has left of it is offered once more; what it leaves then
ends the loop. The number of bytes to offer comes from the number that was
asked for, the place to offer them from from the number that was read. The
two are one number, since the bytes that are asked for have arrived and
`timedRead` looks before it waits (`Link.readBytes_of_arrived`).

So at the end of a turn the stream has what was taken from the connection, and
inside one a beginning of it. Of a block with a length no more than that is
taken, and a block that is returned as copied was. A body without a length is
copied until the connection has ended and nothing is left on it.

A connection may bring its bytes in any pieces and end at any time, and a
stream may do as it likes; both are part of the state the loop starts from.
-/

namespace Link

/-- A byte that has arrived is read at the first look. -/
theorem timedRead_of_arrived {l : Link} {c : UInt8} {rx : List UInt8} (hrx : l.rx = c :: rx) :
    ∃ l' more, l.timedRead = (some c, l') ∧ l'.rx = rx ++ more ∧ l.Took 1 l' := by
  obtain ⟨more, hpoll⟩ : ∃ more, l.poll.rx = c :: (rx ++ more) := by
    unfold poll
    split
    · exact ⟨[], by rw [hrx, List.append_nil]⟩
    · rename_i s rest _
      exact ⟨s.bytes, by rw [hrx, List.cons_append]⟩
  have hread : l.read = (some c, { l.poll with rx := rx ++ more }) := by
    unfold read
    rw [hpoll]
  refine ⟨{ l.poll with rx := rx ++ more }, more, ?_, rfl, ?_⟩
  · unfold timedRead timedReadFrom
    rw [hread]
  · simpa using l.took_poll.trans (took_tail hpoll)

/-- **Bytes that have arrived are all read**, whatever the time-out. -/
theorem readBytes_of_arrived {n : ℕ} {l : Link} (hn : n ≤ l.rx.length) :
    ∃ l', l.readBytes n = (l.rx.take n, l') ∧ l.Took n l' := by
  induction n generalizing l with
  | zero => exact ⟨l, rfl, Took.refl l⟩
  | succ n ih =>
    obtain ⟨c, rx, hrx⟩ :=
      List.exists_cons_of_length_pos (Nat.lt_of_lt_of_le (Nat.succ_pos n) hn)
    obtain ⟨l₁, more, hread, hrx₁, htook₁⟩ := timedRead_of_arrived hrx
    rw [hrx, List.length_cons] at hn
    obtain ⟨l', hreads, htook'⟩ := ih (l := l₁) (by rw [hrx₁, List.length_append]; omega)
    refine ⟨l', ?_, by simpa [Nat.add_comm] using htook₁.trans htook'⟩
    unfold readBytes
    rw [hread]
    dsimp only
    rw [hreads, hrx₁, hrx, List.take_append_of_le_length (by omega), List.take_succ_cons]

end Link

namespace Sink

/-- **A write takes a beginning of its data** and returns how long it is. -/
theorem write_eq (s : Sink) (buffer : List UInt8) :
    (s.write buffer).1 ≤ buffer.length ∧
      (s.write buffer).2.written = s.written ++ buffer.take (s.write buffer).1 := by
  unfold write
  cases s.script with
  | nil => exact ⟨le_rfl, by rw [List.take_length]⟩
  | cons r rest =>
    obtain ⟨room, error⟩ := r
    refine ⟨min_le_right _ _, ?_⟩
    show s.written ++ buffer.take room = s.written ++ buffer.take (min room buffer.length)
    rw [List.take_eq_take_min]

end Sink

namespace HTTPClient

/-- The size of the buffer for a block. -/
def bufferSize (size : ℤ) : ℕ :=
  if 0 < size ∧ size < tcpBufferSize then size.toNat else tcpBufferSize

theorem writeToStreamDataBlock_eq (link : Link) (sink : Sink) (size : ℤ) :
    writeToStreamDataBlock link sink size =
      Fueled.loop (fun s => pure (blockTurn (bufferSize size) size s)) ⟨size, 0, link, sink⟩ :=
        rfl

/-- The streams behind the writes of a turn that has read something. -/
def blockSinks (sink : Sink) (buff : List UInt8) : List Sink :=
  let (bytesWrite, sink) := sink.write buff
  if bytesWrite ≠ buff.length then
    [sink, (sink.clearWriteError.write (buff.drop bytesWrite)).2]
  else [sink]

/-- **Connection and stream behind each write of a turn.** -/
def blockTimes (buffSize : ℕ) (s : BlockState) : List (Link × Sink) :=
  let (up, link) := linkConnected s.link
  if up ∧ (0 < s.len ∨ s.len = -1) then
    let (sizeAvailable, link) := link.available
    if 0 < sizeAvailable then
      let (buff, link) := link.readBytes (blockRead buffSize s.len sizeAvailable)
      (blockSinks s.sink buff).map fun sink => (link, sink)
    else []
  else []

/-- **What was accepted is a beginning of what was received**, and of a block
with a length no more than that was taken from the connection. -/
def Accepted (link : Link) (sink : Sink) (size : ℤ) (p : Link × Sink) : Prop :=
  ∃ taken k, link.Took taken p.1 ∧ k ≤ taken ∧
    p.2.written = sink.written ++ link.pending.take k ∧
    (0 < size → (taken : ℤ) ≤ size)

/-- **What is returned** with a connection and a stream: of a block with a
length no less than the block was accepted, of a body without one all until
the connection ended, or it is an error. -/
structure Returned (link : Link) (sink : Sink) (size : ℤ) (a : ℤ × Link × Sink) : Prop where
  accepted : Accepted link sink size a.2
  length : 0 < size → 0 ≤ a.1 → a.1 = size ∧ size.toNat ≤ link.pending.length ∧
    a.2.2.written = sink.written ++ link.pending.take size.toNat
  all : size = -1 → link.pending.length < 2 ^ 31 → 0 ≤ a.1 → a.2.1.pending = [] ∧
    a.2.2.written = sink.written ++ link.pending ∧ a.1 = (link.pending.length : ℤ)

/-- **A body is copied**: at all times the stream has a beginning of it, and
what is returned is right. -/
structure Copies (link : Link) (sink : Sink) (size : ℤ) : Prop where
  always :
    ∀ s, Fueled.Steps (fun s => pure (blockTurn (bufferSize size) size s))
      ⟨size, 0, link, sink⟩ s →
    ∀ p ∈ (s.link, s.sink) :: blockTimes (bufferSize size) s, Accepted link sink size p
  ends : ∀ a, (writeToStreamDataBlock link sink size).Yields a → Returned link sink size a

/-! ## One turn -/

/-- A connection that is no longer one has nothing left. -/
theorem pending_of_not_connected {l : Link} (h : (linkConnected l).1 = false) :
    l.pending = [] := by
  by_contra hne
  rw [linkConnected_of_pending hne] at h
  cases h

/-- **What a turn can do**: leave the loop, find nothing, or read and write. -/
theorem blockTurn_cases (buffSize : ℕ) (size : ℤ) (s : BlockState) :
    ((s.link.pending = [] ∨ ¬ (0 < s.len ∨ s.len = -1)) ∧ blockTimes buffSize s = [] ∧
      ∃ link, s.link.Took 0 link ∧ blockTurn buffSize size s =
        .inr (if 0 < size ∧ size ≠ s.bytesWritten then errorStreamWrite else s.bytesWritten,
          link, s.sink)) ∨
    (blockTimes buffSize s = [] ∧
      ∃ link, s.link.Took 0 link ∧ blockTurn buffSize size s = .inl { s with link := link }) ∨
    ∃ n link, s.link.Took n link ∧ (0 < s.len ∨ s.len = -1) ∧ (0 < s.len → (n : ℤ) ≤ s.len) ∧
      blockTurn buffSize size s = blockWrite { s with link := link } (s.link.pending.take n) ∧
      blockTimes buffSize s = (blockSinks s.sink (s.link.pending.take n)).map fun sink =>
        (link, sink) := by
  have htook := linkConnected_took s.link
  unfold blockTurn blockTimes
  cases hconnected : linkConnected s.link with
  | mk up link =>
    rw [hconnected] at htook
    dsimp only at htook ⊢
    by_cases hcond : up = true ∧ (0 < s.len ∨ s.len = -1)
    · rw [if_pos hcond, if_pos hcond]
      unfold Link.available
      dsimp only
      have hpoll := htook.trans link.took_poll
      by_cases havail : 0 < link.poll.rx.length
      · rw [if_pos havail, if_pos havail]
        have hn : blockRead buffSize s.len link.poll.rx.length ≤ link.poll.rx.length ∧
            (0 < s.len → (blockRead buffSize s.len link.poll.rx.length : ℤ) ≤ s.len) := by
          unfold blockRead
          split_ifs <;> omega
        generalize blockRead buffSize s.len link.poll.rx.length = n at hn
        obtain ⟨link', hread, htook'⟩ := Link.readBytes_of_arrived hn.1
        have hbytes : link.poll.rx.take n = s.link.pending.take n := by
          have hpending := hpoll.pending
          rw [List.drop_zero] at hpending
          rw [← hpending, Link.pending, List.take_append_of_le_length hn.1]
        rw [hread, hbytes]
        exact Or.inr (Or.inr ⟨n, link', by simpa using hpoll.trans htook',
          hcond.2, hn.2, rfl, rfl⟩)
      · rw [if_neg havail, if_neg havail]
        exact Or.inr (Or.inl ⟨rfl, link.poll, hpoll, rfl⟩)
    · rw [if_neg hcond, if_neg hcond]
      refine Or.inl ⟨?_, rfl, link, htook, ?_⟩
      · by_cases hlen : 0 < s.len ∨ s.len = -1
        · refine Or.inl (pending_of_not_connected ?_)
          rw [hconnected]
          exact Bool.eq_false_iff.mpr fun hup => hcond ⟨hup, hlen⟩
        · exact Or.inr hlen
      · split_ifs <;> rfl

/-- **What the writes of a turn leave** in the stream. -/
theorem blockSinks_written {sink sink' : Sink} {buff : List UInt8}
    (h : sink' ∈ blockSinks sink buff) :
    ∃ k ≤ buff.length, sink'.written = sink.written ++ buff.take k := by
  obtain ⟨hle, hwritten⟩ := sink.write_eq buff
  unfold blockSinks at h
  cases hwrite : sink.write buff with
  | mk bytesWrite first =>
    rw [hwrite] at h hle hwritten
    dsimp only at h hle hwritten
    have hfirst : ∃ k ≤ buff.length, first.written = sink.written ++ buff.take k :=
      ⟨bytesWrite, hle, hwritten⟩
    split at h
    · rcases List.mem_cons.mp h with rfl | h
      · exact hfirst
      · rw [List.mem_singleton.mp h]
        obtain ⟨hle', hwritten'⟩ := first.clearWriteError.write_eq (buff.drop bytesWrite)
        rw [List.length_drop] at hle'
        refine ⟨bytesWrite + (first.clearWriteError.write (buff.drop bytesWrite)).1, by omega,
          ?_⟩
        rw [hwritten', List.take_add, ← List.append_assoc, ← hwritten]
        rfl
    · rw [List.mem_singleton.mp h]
      exact hfirst

/-- **What comes of them**: all was accepted, or an error. -/
theorem blockWrite_cases (s : BlockState) (buff : List UInt8) :
    (∃ sink' ∈ blockSinks s.sink buff,
      blockWrite s buff = .inr (errorStreamWrite, s.link, sink')) ∨
    ∃ sink', sink'.written = s.sink.written ++ buff ∧ blockWrite s buff =
      .inl ⟨if 0 < s.len then s.len - buff.length else s.len,
        int32 (s.bytesWritten + buff.length), s.link, sink'⟩ := by
  obtain ⟨hle, hwritten⟩ := s.sink.write_eq buff
  unfold blockWrite blockSinks
  cases hwrite : s.sink.write buff with
  | mk bytesWrite first =>
    rw [hwrite] at hle hwritten
    dsimp only at hle hwritten ⊢
    by_cases hshort : bytesWrite ≠ buff.length
    · rw [if_pos hshort, if_pos hshort]
      obtain ⟨hle', hwritten'⟩ := first.clearWriteError.write_eq (buff.drop bytesWrite)
      cases hagain : first.clearWriteError.write (buff.drop bytesWrite) with
      | mk again second =>
        rw [hagain, List.length_drop] at hle'
        rw [hagain] at hwritten'
        dsimp only at hle' hwritten' ⊢
        by_cases hleft : again ≠ buff.length - bytesWrite
        · rw [if_pos hleft]
          exact Or.inl ⟨second, List.mem_cons_of_mem _ (List.mem_singleton.mpr rfl), rfl⟩
        · rw [if_neg hleft]
          by_cases herror : second.writeError = true
          · rw [if_pos herror]
            exact Or.inl ⟨second, List.mem_cons_of_mem _ (List.mem_singleton.mpr rfl), rfl⟩
          · rw [if_neg herror]
            rw [not_not] at hleft
            refine Or.inr ⟨second, ?_, ?_⟩
            · rw [hwritten', hleft]
              show first.written ++ (buff.drop bytesWrite).take (buff.length - bytesWrite) = _
              rw [hwritten, List.append_assoc, ← List.take_add, Nat.add_sub_cancel' hle,
                List.take_length]
            · rw [int32_int32_add, hleft]
              have hsum :
                  s.bytesWritten + (bytesWrite : ℤ) + ((buff.length - bytesWrite : ℕ) : ℤ) =
                  s.bytesWritten + buff.length := by omega
              rw [hsum]
    · rw [if_neg hshort, if_neg hshort]
      rw [not_not] at hshort
      by_cases herror : first.writeError = true
      · rw [if_pos herror]
        exact Or.inl ⟨first, List.mem_singleton.mpr rfl, rfl⟩
      · rw [if_neg herror]
        refine Or.inr ⟨first, ?_, ?_⟩
        · rw [hwritten, hshort, List.take_length]
        · rw [hshort]

/-! ## All turns -/

/-- **Between two turns**: what was taken was accepted, and the counts say
so. -/
structure Copied (link : Link) (sink : Sink) (size : ℤ) (taken : ℕ) (s : BlockState) :
    Prop where
  took : link.Took taken s.link
  written : s.sink.written = sink.written ++ link.pending.take taken
  bytesWritten : s.bytesWritten = int32 taken
  len : s.len = if 0 < size then size - taken else size
  bound : 0 < size → (taken : ℤ) ≤ size

variable {link : Link} {sink : Sink} {size : ℤ} {taken : ℕ} {s : BlockState}

theorem copied_start (link : Link) (sink : Sink) (size : ℤ) :
    Copied link sink size 0 ⟨size, 0, link, sink⟩ where
  took := Link.Took.refl link
  written := (List.append_nil _).symm
  bytesWritten := rfl
  len := by
    dsimp only
    split_ifs <;> omega
  bound := fun hsize => by
    push_cast
    omega

theorem Copied.accepted (hs : Copied link sink size taken s) :
    Accepted link sink size (s.link, s.sink) :=
  ⟨taken, taken, hs.took, le_rfl, hs.written, hs.bound⟩

/-- **What is read next** follows what was accepted, and is not beyond the
block. -/
theorem Copied.read (hs : Copied link sink size taken s) {n : ℕ} {link' : Link}
    (htook : s.link.Took n link')
    (hlen : 0 < s.len ∨ s.len = -1) (hn : 0 < s.len → (n : ℤ) ≤ s.len) :
    link.Took (taken + n) link' ∧ (0 < size → ((taken + n : ℕ) : ℤ) ≤ size) ∧
      s.link.pending.take n = (link.pending.drop taken).take n ∧ n ≤ s.link.pending.length := by
  refine ⟨hs.took.trans htook, fun hsize => ?_, by rw [hs.took.pending], htook.le⟩
  have hbound := hs.bound hsize
  have heq := hs.len
  rw [if_pos hsize] at heq
  have hpos : 0 < s.len := by omega
  have hle := hn hpos
  push_cast
  omega

/-- **The writes of a turn** leave the stream with a beginning of what was
received. -/
theorem Copied.blockSinks (hs : Copied link sink size taken s) {n : ℕ} {link' : Link}
    (htook : s.link.Took n link') (hlen : 0 < s.len ∨ s.len = -1)
    (hn : 0 < s.len → (n : ℤ) ≤ s.len)
    {sink' : Sink} (h : sink' ∈ blockSinks s.sink (s.link.pending.take n)) :
    Accepted link sink size (link', sink') := by
  obtain ⟨htaken, hbound, hbytes, -⟩ := hs.read htook hlen hn
  obtain ⟨k, hk, hwritten⟩ := blockSinks_written h
  rw [List.length_take] at hk
  refine ⟨taken + n, taken + k, htaken, by omega, ?_, hbound⟩
  show sink'.written = sink.written ++ link.pending.take (taken + k)
  rw [hwritten, hs.written, hbytes, List.append_assoc, List.take_take,
    Nat.min_eq_left (by omega), List.take_add]

theorem Copied.times (hs : Copied link sink size taken s) :
    ∀ p ∈ blockTimes (bufferSize size) s, Accepted link sink size p := by
  intro p hp
  obtain ⟨-, hnil, -⟩ | ⟨hnil, -⟩ | ⟨n, link', htook, hlen, hn, -, htimes⟩ :=
    blockTurn_cases (bufferSize size) size s
  · rw [hnil] at hp
    cases hp
  · rw [hnil] at hp
    cases hp
  · rw [htimes] at hp
    obtain ⟨sink', hsink, rfl⟩ := List.mem_map.mp hp
    exact hs.blockSinks htook hlen hn hsink

/-- **A turn that goes round** keeps all of that. -/
theorem Copied.again (hs : Copied link sink size taken s) {t : BlockState}
    (hturn : blockTurn (bufferSize size) size s = .inl t) :
    ∃ taken', Copied link sink size taken' t := by
  obtain ⟨-, -, link', -, heq⟩ | ⟨-, link', htook, heq⟩ | ⟨n, link', htook, hlen, hn, heq, -⟩ :=
    blockTurn_cases (bufferSize size) size s
  · rw [heq] at hturn
    cases hturn
  · rw [heq] at hturn
    obtain rfl := Sum.inl.inj hturn
    exact ⟨taken, by simpa using hs.took.trans htook, hs.written, hs.bytesWritten, hs.len,
      hs.bound⟩
  · obtain ⟨htaken, hbound, hbytes, hle⟩ := hs.read htook hlen hn
    have hlength : (s.link.pending.take n).length = n := by
      rw [List.length_take]
      omega
    rw [heq] at hturn
    obtain ⟨sink', -, hwrite⟩ | ⟨sink', hwritten, hwrite⟩ :=
      blockWrite_cases { s with link := link' } (s.link.pending.take n)
    · rw [hwrite] at hturn
      cases hturn
    · rw [hwrite] at hturn
      obtain rfl := Sum.inl.inj hturn
      refine ⟨taken + n, htaken, ?_, ?_, ?_, hbound⟩
      · show sink'.written = sink.written ++ link.pending.take (taken + n)
        rw [hwritten, hs.written, hbytes, List.append_assoc, ← List.take_add]
      · show int32 (s.bytesWritten + ((s.link.pending.take n).length : ℤ)) =
          int32 ((taken + n : ℕ) : ℤ)
        rw [hlength, hs.bytesWritten, int32_int32_add]
        rfl
      · show (if 0 < s.len then s.len - ((s.link.pending.take n).length : ℤ) else s.len) = _
        have heq := hs.len
        rw [hlength]
        split_ifs at heq ⊢ <;> omega

/-- **What a turn that leaves returns.** -/
theorem Copied.leave (hs : Copied link sink size taken s) (hsize : size < 2 ^ 31)
    {a : ℤ × Link × Sink}
    (hturn : blockTurn (bufferSize size) size s = .inr a) : Returned link sink size a := by
  obtain ⟨hcond, -, link₁, htook, heq⟩ | ⟨-, link₁, -, heq⟩ |
      ⟨n, link₁, htook, hlen, hn, heq, -⟩ :=
    blockTurn_cases (bufferSize size) size s
  · rw [heq] at hturn
    obtain rfl := Sum.inr.inj hturn
    have htaken : link.Took taken link₁ := by simpa using hs.took.trans htook
    refine ⟨⟨taken, taken, htaken, le_rfl, hs.written, hs.bound⟩, fun hpos hr => ?_,
      fun hall hlt hr => ?_⟩
    all_goals dsimp only at hr ⊢
    · have hbound := hs.bound hpos
      have hcount : s.bytesWritten = taken := by
        rw [hs.bytesWritten, int32_of_lt (by omega) (by omega)]
      by_cases hne : size ≠ s.bytesWritten
      · rw [if_pos ⟨hpos, hne⟩] at hr
        exact absurd hr (by decide)
      · rw [not_not] at hne
        have htoNat : size.toNat = taken := by omega
        rw [if_neg (fun h => h.2 hne), htoNat]
        exact ⟨hne.symm, hs.took.le, hs.written⟩
    · -- the connection has ended, and there is nothing left on it
      have hneg : s.len = -1 := by
        rw [hs.len, hall]
        rfl
      have hnil : s.link.pending = [] := hcond.resolve_right fun h => h (Or.inr hneg)
      have hdrop := hs.took.pending
      rw [hnil, eq_comm, List.drop_eq_nil_iff] at hdrop
      have hle := hs.took.le
      have hcount : taken = link.pending.length := by omega
      refine ⟨?_, ?_, ?_⟩
      · rw [htook.pending, hnil]
        rfl
      · rw [hs.written, hcount, List.take_length]
      · rw [if_neg (fun h => by omega), hs.bytesWritten, hcount,
          int32_of_lt (by omega) (by omega)]
  · rw [heq] at hturn
    cases hturn
  · rw [heq] at hturn
    obtain ⟨sink₁, hsink, hwrite⟩ | ⟨sink₁, -, hwrite⟩ :=
      blockWrite_cases { s with link := link₁ } (s.link.pending.take n)
    · rw [hwrite] at hturn
      obtain rfl := Sum.inr.inj hturn
      have herror : ¬ 0 ≤ errorStreamWrite := by decide
      exact ⟨hs.blockSinks htook hlen hn hsink, fun _ hr => absurd hr herror,
        fun _ _ hr => absurd hr herror⟩
    · rw [hwrite] at hturn
      cases hturn

/-- **A body is copied without loss or repetition**, of any length that an
`int` has, from any connection to any stream. -/
theorem copies (link : Link) (sink : Sink) {size : ℤ} (hsize : size < 2 ^ 31) :
    Copies link sink size := by
  have hturn : ∀ s, (∃ taken, Copied link sink size taken s) →
      (pure (blockTurn (bufferSize size) size s) : Fueled (BlockState ⊕ ℤ × Link × Sink)).Gives
        fun r =>
        r.elim (fun t => ∃ taken, Copied link sink size taken t) (Returned link sink size) := by
    rintro s ⟨taken, hs⟩
    refine Fueled.gives_pure ?_
    cases hr : blockTurn (bufferSize size) size s with
    | inl t => exact hs.again hr
    | inr a => exact hs.leave hsize hr
  have hstart : ∃ taken, Copied link sink size taken ⟨size, 0, link, sink⟩ :=
    ⟨0, copied_start link sink size⟩
  refine ⟨fun s hsteps p hp => ?_, fun a hyields => ?_⟩
  · obtain ⟨taken, hs⟩ := hsteps.invariant hturn hstart
    rcases List.mem_cons.mp hp with rfl | hp
    · exact hs.accepted
    · exact hs.times p hp
  · have hends := Fueled.gives_loop hturn hstart
    rw [← writeToStreamDataBlock_eq] at hends
    exact hends.of_yields hyields

/-- Five bytes in two segments, to a stream that takes one, then the rest with
an error, then all. -/
theorem copies_short :
    Copies ⟨[], 0, 1000, [⟨ascii "ab", 3⟩, ⟨ascii "cde", 700⟩], true⟩
      ⟨[], false, [(1, true), (9, false)]⟩ (-1) :=
  copies _ _ (by decide)

end HTTPClient
