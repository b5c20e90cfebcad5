import Esp31b.ByteMem
import Esp31b.Fueled
import Esp31b.Pbuf

/-!
# A datagram being written

`UdpContext` collects what is written to a datagram in a chain of packet
buffers of 128 bytes each, and `send` copies it into one buffer that it hands
to lwIP. The chain grows on demand, before the copying: `append` makes room
for everything it is given and then fills buffer after buffer.

Where in the current buffer to go on is not stored. It is computed from
`tot_len`, the length from a buffer to the end of its chain: the difference of
the first buffer's and the current one's is the length before the current
one, and `pbuf_cat` adds to both. The numbers are 16 bits wide, which limits
a datagram to the 511 buffers that they can count.

`TxState.Filled` is what holds between two appends. `transmit_datagrams` says
of every sequence of datagrams, each written in any pieces, that the loops
end, no pointer followed is null, nothing is copied outside of a buffer, and
what lwIP is handed is what was written.
-/

namespace UdpContext

/-- What can go wrong in the loops. -/
inductive Fault where
  /-- A null pointer is followed. -/
  | null
  /-- A `memcpy` writes outside of the payload it targets. -/
  | outside
  deriving DecidableEq, Repr

/-- **The transmit side**: the chain of `_tx_buf_head`, the place of
`_tx_buf_cur` in it (null behind its end), `_tx_buf_offset`, and how many
buffers were allocated so far. -/
structure TxState where
  txBuf : List Pbuf
  cur : ℕ
  offset : UInt32
  allocs : ℕ
  deriving DecidableEq, Repr

section
variable (mem : ℕ → ℕ → UInt8)

/-- `pbuf_alloc(PBUF_TRANSPORT, length, PBUF_RAM)`: one buffer of this length,
which holds whatever was in the memory of this allocation. -/
def pbufAlloc (n : ℕ) (length : UInt16) : Pbuf :=
  ⟨(List.range length.toNat).map (mem n), length, 1⟩

/-- `tot_len` of the first buffer. -/
def headTotLen (c : List Pbuf) : UInt32 :=
  match c with
  | [] => 0
  | p :: _ => p.totLen.toUInt32

/-- One turn of the loop of `_reserve`. -/
def growTurn (st : TxState × UInt32) : Fueled ((TxState × UInt32) ⊕ TxState) :=
  if st.2 = 0 then pure (Sum.inr st.1)
  else
    let grown := { st.1 with
      txBuf := Pbuf.pbufCat st.1.txBuf [pbufAlloc mem st.1.allocs 128]
      allocs := st.1.allocs + 1 }
    if st.2 < 128 then pure (Sum.inr grown) else pure (Sum.inl (grown, st.2 - 128))

/-- The first buffer, if there is none. -/
def TxState.start (s : TxState) : TxState :=
  if s.txBuf = [] then ⟨[pbufAlloc mem s.allocs 128], 0, 0, s.allocs + 1⟩ else s

/-- `_reserve(size)`. -/
def reserve (s : TxState) (size : UInt32) : Fueled TxState :=
  if size < headTotLen (s.start mem).txBuf then pure (s.start mem)
  else Fueled.loop (growTurn mem) (s.start mem, size - headTotLen (s.start mem).txBuf)

/-- One turn of the loop of `append`, with what is left to copy. -/
def appendTurn (st : TxState × List UInt8) :
    Fueled ((TxState × List UInt8) ⊕ Except Fault TxState) :=
  let left := UInt32.ofNat st.2.length
  if left = 0 then pure (Sum.inr (.ok st.1))
  else
    match st.1.txBuf[st.1.cur]? with
    | none => pure (Sum.inr (.error .null))
    | some c =>
      let usedCur := st.1.offset - (headTotLen st.1.txBuf - c.totLen.toUInt32)
      let freeCur := UInt32.ofNat c.len - usedCur
      if freeCur = 0 then pure (Sum.inl ({ st.1 with cur := st.1.cur + 1 }, st.2))
      else
        let willCopy := if left < freeCur then left else freeCur
        if usedCur.toNat + willCopy.toNat ≤ c.len then
          let copied :=
            { c with payload := c.payload.overlay usedCur.toNat (st.2.take willCopy.toNat) }
          pure (Sum.inl ({ st.1 with
            txBuf := st.1.txBuf.set st.1.cur copied
            offset := st.1.offset + willCopy }, st.2.drop willCopy.toNat))
        else pure (Sum.inr (.error .outside))

/-- `append(data, size)`. -/
def append (s : TxState) (data : List UInt8) : Fueled (Except Fault TxState) :=
  let size := UInt32.ofNat data.length
  (if s.txBuf = [] ∨ headTotLen s.txBuf < s.offset + size then reserve mem s (s.offset + size)
    else pure s) >>= fun room => Fueled.loop appendTurn (room, data)

/-- The loop of `send` over the chain: what is left to copy, where to, and the
buffer copied to. -/
def copyOut : List Pbuf → UInt32 → ℕ → List UInt8 → Except Fault (List UInt8)
  | [], _, _, buf => .ok buf
  | p :: c, dataSize, dst, buf =>
    let willCopy := if dataSize < UInt32.ofNat p.len then dataSize else UInt32.ofNat p.len
    if dst + willCopy.toNat ≤ buf.length then
      copyOut c (dataSize - willCopy) (dst + willCopy.toNat)
        (buf.overlay dst (p.payload.take willCopy.toNat))
    else .error .outside

/-- `send`: what `udp_sendto` is handed, and the state it leaves. -/
def send (s : TxState) : Except Fault (Pbuf × TxState) :=
  let txCopy := pbufAlloc mem s.allocs s.offset.toUInt16
  (copyOut s.txBuf s.offset 0 txCopy.payload).map
    (fun payload => ({ txCopy with payload := payload }, ⟨[], 0, 0, s.allocs + 1⟩))

/-- A datagram written in pieces. -/
def appendAll (s : TxState) : List (List UInt8) → Fueled (Except Fault TxState)
  | [] => pure (.ok s)
  | d :: ds => do
    match ← append mem s d with
    | .error e => pure (.error e)
    | .ok t => appendAll t ds

/-- **Datagram after datagram**, each written in pieces and then sent: what
was handed to `udp_sendto`, and the state in the end. -/
def transmit (s : TxState) :
    List (List (List UInt8)) → Fueled (Except Fault (List Pbuf × TxState))
  | [] => pure (.ok ([], s))
  | ds :: dss => do
    match ← appendAll mem s ds with
    | .error e => pure (.error e)
    | .ok t =>
      match send mem t with
      | .error e => pure (.error e)
      | .ok (p, u) =>
        match ← transmit u dss with
        | .error e => pure (.error e)
        | .ok (ps, v) => pure (.ok (p :: ps, v))

/-! ## Between two appends -/

/-- No chain: a datagram that nothing was appended to. -/
def TxState.Empty (s : TxState) : Prop := s.txBuf = [] ∧ s.cur = 0 ∧ s.offset = 0

/-- **A datagram as far as it is written**: a chain of buffers of 128 bytes,
at most 511 of them, that begins with the bytes written and goes on in the
current buffer, or just behind it. -/
structure TxState.Filled (s : TxState) (d : List UInt8) : Prop where
  wf : Pbuf.WellFormed s.txBuf
  unit : ∀ p ∈ s.txBuf, p.len = 128
  count : s.txBuf.length ≤ 511
  cur_lt : s.cur < s.txBuf.length
  offset : s.offset.toNat = d.length
  cur_le : 128 * s.cur ≤ d.length
  le_cur : d.length ≤ 128 * (s.cur + 1)
  bytes : (Pbuf.bytes s.txBuf).take d.length = d

variable {mem} {s t : TxState} {d : List UInt8}

theorem total_of_unit {c : List Pbuf} (h : ∀ p ∈ c, p.len = 128) :
    Pbuf.total c = 128 * c.length := by
  induction c with
  | nil => rfl
  | cons p c ih =>
    rw [Pbuf.total_cons, h p List.mem_cons_self,
      ih (fun q hq => h q (List.mem_cons_of_mem p hq)), List.length_cons]
    omega

/-- `tot_len` counts the buffers from one on. -/
theorem TxState.Filled.totLen (h : s.Filled d) {i : ℕ} (hi : i < s.txBuf.length) :
    s.txBuf[i].totLen.toUInt32.toNat = 128 * (s.txBuf.length - i) := by
  rw [UInt16.toNat_toUInt32, h.wf.totLen_getElem hi,
    total_of_unit (fun p hp => h.unit p (List.mem_of_mem_drop hp)), List.length_drop]

theorem headTotLen_eq {ps : List Pbuf} (h : 0 < ps.length) :
    headTotLen ps = ps[0].totLen.toUInt32 := by
  cases ps with
  | nil => cases h
  | cons p ps => rfl

theorem TxState.Filled.head_totLen (h : s.Filled d) :
    (headTotLen s.txBuf).toNat = 128 * s.txBuf.length := by
  rw [headTotLen_eq (Nat.zero_lt_of_lt h.cur_lt), h.totLen, Nat.sub_zero]

theorem len_pbufAlloc (n : ℕ) (length : UInt16) :
    (pbufAlloc mem n length).len = length.toNat := by
  rw [Pbuf.len, pbufAlloc, List.length_map, List.length_range]

theorem wellFormed_pbufAlloc (n : ℕ) : Pbuf.WellFormed [pbufAlloc mem n 128] := by
  have hlen : (pbufAlloc mem n 128).payload.length = 128 := len_pbufAlloc n 128
  refine ⟨rfl, List.ne_nil_of_length_pos (by omega), ?_, trivial⟩
  rw [Pbuf.total_cons, len_pbufAlloc]
  rfl

/-! ## Making room -/

/-- The first buffer of a datagram. -/
theorem filled_start (h : s.Empty) : (s.start mem).Filled [] := by
  rw [TxState.start, if_pos h.1]
  exact ⟨wellFormed_pbufAlloc _, fun p hp => List.mem_singleton.mp hp ▸ len_pbufAlloc _ 128,
    (by decide : 1 ≤ 511), Nat.zero_lt_one, rfl, Nat.zero_le _, Nat.zero_le _, List.take_zero⟩

theorem length_pbufCat_singleton (c : List Pbuf) (q : Pbuf) :
    (Pbuf.pbufCat c [q]).length = c.length + 1 := by
  rw [Pbuf.pbufCat, List.length_append, List.length_map, List.length_singleton]

/-- **One more buffer** changes the length from each buffer on, and nothing
else. -/
theorem TxState.Filled.grow (mem : ℕ → ℕ → UInt8) (h : s.Filled d)
    (hcount : s.txBuf.length < 511)
    (n : ℕ) : TxState.Filled { s with
      txBuf := Pbuf.pbufCat s.txBuf [pbufAlloc mem n 128]
      allocs := n + 1 } d where
  wf := by
    refine h.wf.cat (wellFormed_pbufAlloc n) ?_
    rw [total_of_unit h.unit, Pbuf.total_cons, len_pbufAlloc, Pbuf.total_nil]
    show 128 * s.txBuf.length + (128 + 0) < 2 ^ 16
    omega
  unit p hp := by
    rw [Pbuf.pbufCat, List.mem_append, List.mem_map, List.mem_singleton] at hp
    rcases hp with ⟨q, hq, rfl⟩ | rfl
    · exact h.unit q hq
    · exact len_pbufAlloc n 128
  count := by
    rw [length_pbufCat_singleton]
    exact hcount
  cur_lt := by
    rw [length_pbufCat_singleton]
    exact Nat.lt_succ_of_lt h.cur_lt
  offset := h.offset
  cur_le := h.cur_le
  le_cur := h.le_cur
  bytes := by
    have htotal : (Pbuf.bytes s.txBuf).length = 128 * s.txBuf.length := total_of_unit h.unit
    have hlt := h.cur_lt
    have hle := h.le_cur
    rw [Pbuf.bytes_pbufCat, List.take_append_of_le_length (by omega)]
    exact h.bytes

/-- **The loop of `_reserve` makes room** for `n` bytes. -/
theorem yields_grow (h : s.Filled d) {n : ℕ} (hn : n ≤ 65408) {size : UInt32}
    (hsize : 128 * s.txBuf.length + size.toNat = n) :
    ∃ t, (Fueled.loop (growTurn mem) (s, size)).Yields t ∧ t.Filled d ∧
      n ≤ 128 * t.txBuf.length := by
  refine Fueled.exists_yields_loop
    (fun st => st.1.Filled d ∧ 128 * st.1.txBuf.length + st.2.toNat = n)
    (fun st => st.2.toNat) _ ?_
    (s := (s, size)) ⟨h, hsize⟩
  rintro ⟨u, grow⟩ ⟨hu, hroom⟩
  dsimp only at hu hroom
  unfold growTurn
  dsimp only
  by_cases hzero : grow = 0
  · subst hzero
    refine Or.inl ⟨u, ?_, hu, ?_⟩
    · rw [if_pos rfl]
      exact Fueled.yields_pure _
    · exact Nat.le_of_eq hroom.symm
  · have hpos : 0 < grow.toNat := Nat.pos_of_ne_zero (fun h0 => hzero (UInt32.toNat_inj.mp h0))
    have hgrown := hu.grow mem (by omega) u.allocs
    have hlength := length_pbufCat_singleton u.txBuf (pbufAlloc mem u.allocs 128)
    rw [if_neg hzero]
    by_cases hlast : grow < 128
    · -- the last buffer is the one that is not needed whole
      refine Or.inl ⟨_, ?_, hgrown, ?_⟩
      · rw [if_pos hlast]
        exact Fueled.yields_pure _
      · rw [UInt32.lt_iff_toNat_lt] at hlast
        have hlast' : grow.toNat < 128 := hlast
        dsimp only
        omega
    · have hle : (128 : UInt32) ≤ grow := UInt32.not_lt.mp hlast
      have hsub := UInt32.toNat_sub_of_le _ _ hle
      rw [UInt32.le_iff_toNat_le] at hle
      have h128 : (128 : UInt32).toNat = 128 := rfl
      refine Or.inr ⟨(_, grow - 128), ?_, ⟨hgrown, ?_⟩, ?_⟩
      · rw [if_neg hlast]
        exact Fueled.yields_pure _
      · dsimp only
        omega
      · dsimp only
        omega

/-- **`_reserve` makes room**, whatever there was before. -/
theorem yields_reserve (h : (s.start mem).Filled d) {size : UInt32}
    (hsize : size.toNat ≤ 65408) :
    ∃ t, (reserve mem s size).Yields t ∧ t.Filled d ∧ size.toNat ≤ 128 * t.txBuf.length := by
  unfold reserve
  have hhead := h.head_totLen
  by_cases hroom : size < headTotLen (s.start mem).txBuf
  · rw [if_pos hroom]
    rw [UInt32.lt_iff_toNat_lt] at hroom
    exact ⟨_, Fueled.yields_pure _, h, by omega⟩
  · rw [if_neg hroom]
    have hle := UInt32.not_lt.mp hroom
    have hsub := UInt32.toNat_sub_of_le _ _ hle
    rw [UInt32.le_iff_toNat_le] at hle
    exact yields_grow h hsize (by omega)

/-! ## Copying -/

/-- **Where to go on**: the differences of `tot_len` are the place in the
current buffer. -/
theorem TxState.Filled.usedCur (h : s.Filled d) (hcur : s.cur < s.txBuf.length) :
    (s.offset - (headTotLen s.txBuf - s.txBuf[s.cur].totLen.toUInt32)).toNat =
      d.length - 128 * s.cur := by
  have hhead := h.head_totLen
  have htotLen := h.totLen hcur
  have hoffset := h.offset
  have hle := h.cur_le
  have hbefore : (headTotLen s.txBuf - s.txBuf[s.cur].totLen.toUInt32).toNat = 128 * s.cur := by
    rw [UInt32.toNat_sub_of_le _ _ (UInt32.le_iff_toNat_le.mpr (by omega))]
    omega
  rw [UInt32.toNat_sub_of_le _ _ (UInt32.le_iff_toNat_le.mpr (by omega)), hbefore, hoffset]

/-- **Bytes copied into the current buffer** are behind those written. -/
theorem TxState.Filled.copy (h : s.Filled d) (hcur : s.cur < s.txBuf.length) {x : List UInt8}
    {k : UInt32} (hk : k.toNat = x.length) (hfit : d.length - 128 * s.cur + x.length ≤ 128) :
    TxState.Filled { s with
      txBuf := s.txBuf.set s.cur { s.txBuf[s.cur] with
        payload := s.txBuf[s.cur].payload.overlay (d.length - 128 * s.cur) x }
      offset := s.offset + k } (d ++ x) := by
  have hlen : s.txBuf[s.cur].payload.length = 128 := h.unit _ (List.getElem_mem hcur)
  have hover : (s.txBuf[s.cur].payload.overlay (d.length - 128 * s.cur) x).length = 128 := by
    rw [List.length_overlay (by omega), hlen]
  have hle := h.cur_le
  have hcount := h.count
  have hbefore : (Pbuf.bytes (s.txBuf.take s.cur)).length = 128 * s.cur := by
    have htotal := total_of_unit (c := s.txBuf.take s.cur)
      (fun p hp => h.unit p (List.mem_of_mem_take hp))
    rwa [List.length_take, Nat.min_eq_left hcur.le] at htotal
  have hoffset := h.offset
  refine ⟨h.wf.of_shape ?_, fun p hp => ?_, ?_, ?_, ?_, ?_, ?_, ?_⟩
  · -- lengths and counts are those of before, so the chain is as well formed as it was
    have hcur' : s.cur < (s.txBuf.map Pbuf.shape).length := by rwa [List.length_map]
    have hshape : Pbuf.shape { s.txBuf[s.cur] with
        payload := s.txBuf[s.cur].payload.overlay (d.length - 128 * s.cur) x }
        = (s.txBuf.map Pbuf.shape)[s.cur] := by
      rw [List.getElem_map, Pbuf.shape, Pbuf.shape, Pbuf.len, Pbuf.len, hover, hlen]
    rw [List.map_set, hshape, List.set_getElem_self]
  · rcases List.mem_or_eq_of_mem_set hp with hold | rfl
    · exact h.unit p hold
    · exact hover
  · rw [List.length_set]
    exact hcount
  · rw [List.length_set]
    exact hcur
  · rw [UInt32.toNat_add, List.length_append]
    omega
  · rw [List.length_append]
    exact hle.trans (Nat.le_add_right _ _)
  · rw [List.length_append]
    dsimp only
    omega
  · have hbytes : Pbuf.bytes (s.txBuf.set s.cur { s.txBuf[s.cur] with
        payload := s.txBuf[s.cur].payload.overlay (d.length - 128 * s.cur) x })
        = (Pbuf.bytes s.txBuf).overlay d.length x := by
      rw [Pbuf.bytes_set hcur, Pbuf.bytes_eq hcur]
      have hplace : d.length = (Pbuf.bytes (s.txBuf.take s.cur)).length +
          (d.length - 128 * s.cur) := by
        omega
      rw [← List.overlay_append (by omega), ← hplace]
    have htotal : (Pbuf.bytes s.txBuf).length = 128 * s.txBuf.length := total_of_unit h.unit
    dsimp only
    rw [hbytes, List.length_append, List.take_overlay (by omega), h.bytes]

/-- How much of the current buffer is free. -/
theorem TxState.Filled.freeCur (h : s.Filled d) (hcur : s.cur < s.txBuf.length) :
    (UInt32.ofNat s.txBuf[s.cur].len -
      (s.offset - (headTotLen s.txBuf - s.txBuf[s.cur].totLen.toUInt32))).toNat
        = 128 * (s.cur + 1) - d.length := by
  have hused := h.usedCur hcur
  have hle := h.cur_le
  have hle' := h.le_cur
  have h128 : (UInt32.ofNat 128).toNat = 128 := rfl
  rw [h.unit _ (List.getElem_mem hcur),
    UInt32.toNat_sub_of_le _ _ (UInt32.le_iff_toNat_le.mpr (by omega)), hused, h128]
  omega

section
variable {rest : List UInt8}

/-- The smaller of two sizes, as the code takes it. -/
theorem toNat_smaller (a b : UInt32) :
    (if a < b then a else b).toNat = min a.toNat b.toNat := by
  split
  · rename_i hlt
    exact (Nat.min_eq_left (UInt32.lt_iff_toNat_lt.mp hlt).le).symm
  · rename_i hge
    exact (Nat.min_eq_right (UInt32.le_iff_toNat_le.mp (UInt32.not_lt.mp hge))).symm

/-- What is left to copy, as a number. -/
theorem toNat_left (hsmall : rest.length < 2 ^ 32) :
    (UInt32.ofNat rest.length).toNat = rest.length := UInt32.toNat_ofNat_of_lt' hsmall

theorem left_ne_zero (hrest : rest ≠ []) (hsmall : rest.length < 2 ^ 32) :
    UInt32.ofNat rest.length ≠ 0 := by
  intro hzero
  have hleft := toNat_left hsmall
  rw [hzero] at hleft
  exact hrest (List.eq_nil_of_length_eq_zero hleft.symm)

/-- **A turn with a full buffer** goes on to the next. -/
theorem appendTurn_full (h : s.Filled d) (hrest : rest ≠ []) (hsmall : rest.length < 2 ^ 32)
    (hfull : d.length = 128 * (s.cur + 1)) :
    (appendTurn (s, rest)).Yields (Sum.inl ({ s with cur := s.cur + 1 }, rest)) := by
  have hfree := h.freeCur h.cur_lt
  rw [hfull, Nat.sub_self] at hfree
  unfold appendTurn
  dsimp only
  rw [if_neg (left_ne_zero hrest hsmall), List.getElem?_eq_getElem h.cur_lt]
  dsimp only
  rw [if_pos (UInt32.toNat_inj.mp hfree)]
  exact Fueled.yields_pure _

/-- **A turn with room in the buffer** copies as much as fits, inside of the
buffer. -/
theorem appendTurn_copy (h : s.Filled d) (hrest : rest ≠ []) (hsmall : rest.length < 2 ^ 32)
    (hroom : d.length < 128 * (s.cur + 1)) :
    ∃ t k, (appendTurn (s, rest)).Yields (Sum.inl (t, rest.drop k)) ∧ 0 < k ∧ k ≤ rest.length ∧
      t.Filled (d ++ rest.take k) ∧ t.txBuf.length = s.txBuf.length ∧ t.cur = s.cur := by
  have hcur := h.cur_lt
  have hle := h.cur_le
  have hused := h.usedCur hcur
  have hfree := h.freeCur hcur
  have hlen : s.txBuf[s.cur].len = 128 := h.unit _ (List.getElem_mem hcur)
  have hpos := List.length_pos_of_ne_nil hrest
  have hleft := toNat_left hsmall
  unfold appendTurn
  dsimp only
  rw [if_neg (left_ne_zero hrest hsmall), List.getElem?_eq_getElem hcur]
  dsimp only
  generalize s.offset - (headTotLen s.txBuf - s.txBuf[s.cur].totLen.toUInt32) =
    used at hused hfree ⊢
  generalize UInt32.ofNat s.txBuf[s.cur].len - used = free at hfree ⊢
  have hwill := toNat_smaller (UInt32.ofNat rest.length) free
  rw [hleft] at hwill
  generalize (if UInt32.ofNat rest.length < free then UInt32.ofNat rest.length else free) =
    will at hwill ⊢
  have htake : (rest.take will.toNat).length = will.toNat := by
    rw [List.length_take]
    omega
  have hsome : free ≠ 0 := by
    rintro rfl
    exact absurd hfree (by show ¬ 0 = _; omega)
  rw [if_neg hsome, if_pos (by omega)]
  refine ⟨_, will.toNat, Fueled.yields_pure _, by omega, by omega, ?_, List.length_set, rfl⟩
  rw [hused]
  exact h.copy hcur htake.symm (by omega)

end

/-- **The loop of `append` ends with everything copied**, where there is room
for it. -/
theorem yields_appendLoop (h : s.Filled d) (data : List UInt8)
    (hroom : d.length + data.length ≤ 128 * s.txBuf.length) :
    ∃ t, (Fueled.loop appendTurn (s, data)).Yields (.ok t) ∧ t.Filled (d ++ data) := by
  suffices hloop : ∃ r, (Fueled.loop appendTurn (s, data)).Yields r ∧
      ∃ t, r = .ok t ∧ t.Filled (d ++ data) by
    obtain ⟨_, hyields, t, rfl, ht⟩ := hloop
    exact ⟨t, hyields, ht⟩
  refine Fueled.exists_yields_loop
    (fun st => ∃ e, d ++ data = e ++ st.2 ∧ st.1.Filled e ∧
      e.length + st.2.length ≤ 128 * st.1.txBuf.length)
    (fun st => st.2.length + (st.1.txBuf.length - st.1.cur)) _ ?_ ⟨d, rfl, h, hroom⟩
  rintro ⟨u, rest⟩ ⟨e, hsplit, hu, hrest⟩
  dsimp only at hsplit hu hrest ⊢
  have hcur := hu.cur_lt
  have hcount := hu.count
  rcases eq_or_ne rest [] with rfl | hne
  · refine Or.inl ⟨_, Fueled.yields_pure _, u, rfl, ?_⟩
    rw [hsplit, List.append_nil]
    exact hu
  · have hpos := List.length_pos_of_ne_nil hne
    refine Or.inr ?_
    rcases Nat.lt_or_eq_of_le hu.le_cur with hfree | hfull
    · obtain ⟨t, k, hyields, hk, hk', ht, hlength, htcur⟩ :=
        appendTurn_copy hu hne (by omega) hfree
      refine ⟨_, hyields, ⟨_, ?_, ht, ?_⟩, ?_⟩
      · rw [hsplit, List.append_assoc, List.take_append_drop]
      · rw [List.length_append, List.length_take, List.length_drop, hlength]
        omega
      · dsimp only
        rw [List.length_drop, hlength, htcur]
        omega
    · -- a full buffer that is not the last, as there is room for the rest
      refine ⟨_, appendTurn_full hu hne (by omega) hfull, ⟨e, hsplit, ?_, hrest⟩, ?_⟩
      · exact ⟨hu.wf, hu.unit, hu.count, by dsimp only; omega, hu.offset,
          hfull.ge, by dsimp only; omega, hu.bytes⟩
      · dsimp only
        omega

/-! ## Appending and sending -/

/-- A datagram that may not have been begun. -/
def TxState.Holds (s : TxState) (d : List UInt8) : Prop := s.Empty ∧ d = [] ∨ s.Filled d

theorem TxState.Holds.offset (h : s.Holds d) : s.offset.toNat = d.length := by
  rcases h with ⟨⟨-, -, hoffset⟩, rfl⟩ | h
  · rw [hoffset]
    rfl
  · exact h.offset

theorem TxState.Filled.ne_nil (h : s.Filled d) : s.txBuf ≠ [] :=
  List.ne_nil_of_length_pos (Nat.zero_lt_of_lt h.cur_lt)

theorem TxState.Holds.start (h : s.Holds d) : (s.start mem).Filled d := by
  rcases h with ⟨h, rfl⟩ | h
  · exact filled_start h
  · rwa [TxState.start, if_neg h.ne_nil]

/-- **`append` appends.** -/
theorem yields_append (mem : ℕ → ℕ → UInt8) (h : s.Holds d) (data : List UInt8)
    (hfit : d.length + data.length ≤ 65408) :
    ∃ t, (append mem s data).Yields (.ok t) ∧ t.Filled (d ++ data) := by
  have hoffset := h.offset
  have hsize : (s.offset + UInt32.ofNat data.length).toNat = d.length + data.length := by
    rw [UInt32.toNat_add, UInt32.toNat_ofNat', hoffset]
    omega
  have hroom :
      ∃ u, (if s.txBuf = [] ∨ headTotLen s.txBuf < s.offset + UInt32.ofNat data.length then
      reserve mem s (s.offset + UInt32.ofNat data.length) else pure s).Yields u ∧ u.Filled d ∧
        d.length + data.length ≤ 128 * u.txBuf.length := by
    by_cases hcond : s.txBuf = [] ∨ headTotLen s.txBuf < s.offset + UInt32.ofNat data.length
    · rw [if_pos hcond, ← hsize]
      exact yields_reserve h.start (by omega)
    · rw [if_neg hcond]
      rw [not_or, UInt32.lt_iff_toNat_lt, hsize] at hcond
      rcases h with ⟨hempty, -⟩ | h
      · exact absurd hempty.1 hcond.1
      · refine ⟨s, Fueled.yields_pure _, h, ?_⟩
        rw [← h.head_totLen]
        omega
  obtain ⟨u, hu, hfilled, hle⟩ := hroom
  obtain ⟨t, ht, hdone⟩ := yields_appendLoop hfilled data hle
  exact ⟨t, hu.bind ht, hdone⟩

/-- A datagram written in pieces is what the pieces make. -/
theorem yields_appendAll (mem : ℕ → ℕ → UInt8) (h : s.Holds d) (ds : List (List UInt8))
    (hfit : d.length + ds.flatten.length ≤ 65408) :
    ∃ t, (appendAll mem s ds).Yields (.ok t) ∧ t.Holds (d ++ ds.flatten) ∧
      (ds ≠ [] → t.txBuf ≠ []) := by
  induction ds generalizing s d with
  | nil =>
    refine ⟨s, Fueled.yields_pure _, ?_, fun hne => absurd rfl hne⟩
    rwa [List.flatten_nil, List.append_nil]
  | cons e ds ih =>
    rw [List.flatten_cons, List.length_append] at hfit
    obtain ⟨u, hu, hfilled⟩ := yields_append mem h e (by omega)
    obtain ⟨t, ht, hholds, hmore⟩ := ih (Or.inr hfilled) (by rw [List.length_append]; omega)
    refine ⟨t, hu.bind ht, ?_, fun _ => ?_⟩
    · rwa [List.flatten_cons, ← List.append_assoc]
    · cases ds with
      | nil =>
        have heq : u = t := Except.ok.inj ((Fueled.yields_pure _).unique ht)
        exact heq ▸ hfilled.ne_nil
      | cons e' ds => exact hmore (List.cons_ne_nil _ _)

/-- **The loop of `send` copies what was written**, into a buffer of that
size. -/
theorem copyOut_eq (c : List Pbuf) (hunit : ∀ p ∈ c, p.len = 128) (dataSize : UInt32) (dst : ℕ)
    (buf : List UInt8) (hbuf : dst + dataSize.toNat = buf.length)
    (hdata : dataSize.toNat ≤ Pbuf.total c) :
    copyOut c dataSize dst buf = .ok (buf.take dst ++ (Pbuf.bytes c).take dataSize.toNat) := by
  induction c generalizing dataSize dst buf with
  | nil =>
    have hzero : dataSize.toNat = 0 := Nat.le_zero.mp hdata
    rw [copyOut, hzero, List.take_zero, List.append_nil, List.take_of_length_le (by omega)]
  | cons p c ih =>
    have hlen := hunit p List.mem_cons_self
    have hpayload : p.payload.length = 128 := hlen
    have h128 : (UInt32.ofNat 128).toNat = 128 := rfl
    rw [Pbuf.total_cons, hlen] at hdata
    rw [copyOut, hlen]
    have hwill := toNat_smaller dataSize (UInt32.ofNat 128)
    rw [h128] at hwill
    generalize (if dataSize < UInt32.ofNat 128 then dataSize else UInt32.ofNat 128)
      = will at hwill ⊢
    have htake : (p.payload.take will.toNat).length = will.toNat := by
      rw [List.length_take]
      omega
    have hsub : (dataSize - will).toNat = dataSize.toNat - will.toNat :=
      UInt32.toNat_sub_of_le _ _ (UInt32.le_iff_toNat_le.mpr (by omega))
    -- what is left out by the minimum is not there
    have hwhole : p.payload.take will.toNat = p.payload.take dataSize.toNat := by
      rcases Nat.le_total dataSize.toNat 128 with hle | hge
      · rw [hwill, Nat.min_eq_left hle]
      · rw [hwill, Nat.min_eq_right hge, List.take_of_length_le (by omega),
          List.take_of_length_le (by omega)]
    rw [if_pos (by omega), ih (fun q hq => hunit q (List.mem_cons_of_mem p hq)) _ _ _
      (by rw [List.length_overlay (by omega)]; omega) (by omega)]
    have hdst : dst + will.toNat = dst + (p.payload.take will.toNat).length := by rw [htake]
    have hrest : dataSize.toNat - will.toNat = dataSize.toNat - 128 := by omega
    rw [hdst, List.take_overlay (by omega), Pbuf.bytes_cons, List.take_append,
      List.append_assoc, hsub,
      hwhole, hpayload, hrest]

/-- **`send` hands lwIP one buffer with what was written.** -/
theorem send_eq (h : s.Filled d) :
    send mem s = .ok (⟨d, UInt16.ofNat d.length, 1⟩, ⟨[], 0, 0, s.allocs + 1⟩) := by
  have hle := h.le_cur
  have hlt := h.cur_lt
  have hcount := h.count
  have hoffset := h.offset
  have hlen : (pbufAlloc mem s.allocs s.offset.toUInt16).payload.length = d.length := by
    show (pbufAlloc mem s.allocs s.offset.toUInt16).len = _
    rw [len_pbufAlloc, UInt32.toNat_toUInt16, hoffset]
    omega
  have htotal := total_of_unit h.unit
  have hcopy := copyOut_eq s.txBuf h.unit s.offset 0
    (pbufAlloc mem s.allocs s.offset.toUInt16).payload
    (by omega) (by omega)
  rw [List.take_zero, List.nil_append, hoffset, h.bytes] at hcopy
  have hsize : s.offset.toUInt16 = UInt16.ofNat d.length := by
    apply UInt16.toNat_inj.mp
    rw [UInt32.toNat_toUInt16, UInt16.toNat_ofNat', hoffset]
  rw [send, hcopy, hsize]
  rfl

/-- **What is written is what is sent.** Of every sequence of datagrams, each
written in one or more pieces of any lengths and at most 65408 bytes long in
all, none of the loops goes on for ever, follows a null pointer or copies
outside of a buffer; lwIP is handed one buffer for each, with exactly its
bytes; and there is nothing left. -/
theorem transmit_datagrams (mem : ℕ → ℕ → UInt8) (s : TxState) (h : s.Empty)
    (dss : List (List (List UInt8))) (hne : ∀ ds ∈ dss, ds ≠ [])
    (hfit : ∀ ds ∈ dss, ds.flatten.length ≤ 65408) :
    ∃ ps t, (transmit mem s dss).Yields (.ok (ps, t)) ∧
      ps.map Pbuf.payload = dss.map List.flatten ∧
      (∀ p ∈ ps, p.totLen.toNat = p.len) ∧ t.Empty := by
  induction dss generalizing s with
  | nil => exact ⟨[], s, Fueled.yields_pure _, rfl, fun _ hp => absurd hp List.not_mem_nil, h⟩
  | cons ds dss ih =>
    have hds := hfit ds List.mem_cons_self
    obtain ⟨u, hu, hholds, hsome⟩ := yields_appendAll mem (Or.inl ⟨h, rfl⟩ : s.Holds []) ds
      (by rwa [List.length_nil, Nat.zero_add])
    rw [List.nil_append] at hholds
    -- an empty datagram is begun too: `append` reserves before it copies
    have hfilled : u.Filled ds.flatten := by
      rcases hholds with ⟨hempty, -⟩ | hfilled
      · exact absurd hempty.1 (hsome (hne ds List.mem_cons_self))
      · exact hfilled
    obtain ⟨ps, t, ht, hpayloads, hlens, hempty⟩ := ih ⟨[], 0, 0, u.allocs + 1⟩ ⟨rfl, rfl, rfl⟩
      (fun e he => hne e (List.mem_cons_of_mem ds he))
        (fun e he => hfit e (List.mem_cons_of_mem ds he))
    refine ⟨⟨ds.flatten, UInt16.ofNat ds.flatten.length, 1⟩ :: ps, t,
      hu.bind ?_, ?_, ?_, hempty⟩
    · dsimp only
      rw [send_eq hfilled]
      exact ht.bind (Fueled.yields_pure _)
    · rw [List.map_cons, List.map_cons, hpayloads]
    · intro p hp
      rcases List.mem_cons.mp hp with rfl | hp
      · exact UInt16.toNat_ofNat_of_lt' (by show _ < 2 ^ 16; omega)
      · exact hlens p hp

/-- Two datagrams, one of them empty, in a memory that was used before. -/
theorem transmit_two_datagrams :
    ∃ ps t, (transmit (fun _ _ => 0xa5) ⟨[], 0, 0, 0⟩ [[[1, 2], [], [3]], [[]]]).Yields
      (.ok (ps, t)) ∧
      ps.map Pbuf.payload = [[1, 2, 3], []] ∧ (∀ p ∈ ps, p.totLen.toNat = p.len) ∧ t.Empty :=
  transmit_datagrams (fun _ _ => 0xa5) ⟨[], 0, 0, 0⟩ ⟨rfl, rfl, rfl⟩ [[[1, 2], [], [3]], [[]]]
    (by decide)
    (by decide)

end

end UdpContext
