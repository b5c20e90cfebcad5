import Esp31b.HttpClient

/-!
# Copying a block of a body

`writeToStreamDataBlock` copies a block of known length in pieces: each turn
takes what has arrived, up to the buffer and to what is left of the block,
and a turn that finds nothing looks again. On a connection over which
the block does arrive, however slowly, the whole block and nothing more is
taken and written.
-/

namespace HTTPClient

/-- **A stream that accepts every write.** -/
def Accepts (s : Sink) : Prop := s.script = [] ∧ s.writeError = false

/-- The stream after some bytes were written to it. -/
def wrote (s : Sink) (bs : List UInt8) : Sink := { s with written := s.written ++ bs }

theorem Accepts.write {s : Sink} (h : Accepts s) (bs : List UInt8) :
    s.write bs = (bs.length, wrote s bs) := by
  simp [Sink.write, h.1, wrote]

theorem Accepts.wrote {s : Sink} (h : Accepts s) (bs : List UInt8) :
    Accepts (HTTPClient.wrote s bs) := h

theorem linkConnected_eq {l : Link} (h : l.fin = false) : linkConnected l = (true, l.poll) := by
  rw [linkConnected, Link.connected_eq h]

/-- A connection with something pending is one, closed behind it or not. -/
theorem linkConnected_of_pending {l : Link} (h : l.pending ≠ []) :
    linkConnected l = (true, l.poll) := by
  have hup : (l.poll.up || !l.poll.rx.isEmpty) = true := by
    by_contra hdown
    rw [Bool.not_eq_true, Bool.or_eq_false_iff, Bool.not_eq_false', List.isEmpty_iff] at hdown
    obtain ⟨hup, hrx⟩ := hdown
    have hsched : l.poll.sched = [] := by
      unfold Link.up at hup
      simp only [Bool.not_eq_false', Bool.and_eq_true, List.isEmpty_iff] at hup
      exact hup.2
    have hpending := l.took_poll.pending
    rw [List.drop_zero, Link.pending, hrx, hsched] at hpending
    exact h hpending.symm
  rw [linkConnected, Link.connected, hup]

/-- Asking takes nothing. -/
theorem linkConnected_took (l : Link) : l.Took 0 (linkConnected l).2 := by
  unfold linkConnected Link.connected
  cases l.poll.up || !l.poll.rx.isEmpty
  · exact l.took_poll.trans l.poll.took_poll
  · exact l.took_poll

theorem int32_lt (v : ℤ) : int32 v < 2 ^ 31 := by
  unfold int32
  omega

/-- **Part of the block is copied**: `k` bytes of it were taken and written. -/
def BlockAt (l : Link) (sink : Sink) (data : List UInt8) (k : ℕ) (s : BlockState) : Prop :=
  k ≤ data.length ∧ s.len = data.length - k ∧ s.bytesWritten = k ∧ l.Took k s.link ∧
    s.sink = wrote sink (data.take k)

variable {l : Link} {sink : Sink} {data rest : List UInt8} {k : ℕ} {s : BlockState}

/-- A turn with the whole block copied leaves the loop. -/
theorem blockTurn_done (buffSize : ℕ)
    (hs : BlockAt l sink data data.length s) :
    ∃ l', blockTurn buffSize data.length s = .inr ((data.length : ℤ), l', wrote sink data) ∧
      l.Took data.length l' := by
  obtain ⟨-, hlen, hwritten, htook, hsink⟩ := hs
  refine ⟨(linkConnected s.link).2, ?_, by simpa using htook.trans (linkConnected_took s.link)⟩
  rw [blockTurn, hlen, hwritten, hsink]
  simp

/-- Before that, what is looked at is the rest of the block. -/
theorem BlockAt.pending_polls (hp : l.pending = data ++ rest) (hs : BlockAt l sink data k s) :
    s.link.poll.poll.pending = data.drop k ++ rest ∧ s.link.Took 0 s.link.poll.poll := by
  obtain ⟨hkle, -, -, htook, -⟩ := hs
  have hpolls : s.link.Took 0 s.link.poll.poll := by
    simpa using s.link.took_poll.trans s.link.poll.took_poll
  refine ⟨?_, hpolls⟩
  rw [hpolls.pending, List.drop_zero, htook.pending, hp, List.drop_append_of_le_length hkle]

/-- A turn copies what has arrived: everything read is written at once, and
the counts follow. -/
theorem blockTurn_copy {buffSize : ℕ} (hbuff : 0 < buffSize) (hto : 0 < l.timeout)
    (hp : l.pending = data ++ rest) (hlt : data.length < 2 ^ 31) (hsink : Accepts sink)
    (hk : k < data.length) (hs : BlockAt l sink data k s) {l₂ : Link}
    (hl₂ : s.link.poll.poll = l₂)
    {n : ℕ} (hn : blockRead buffSize s.len l₂.rx.length = n) (havail : 0 < l₂.rx.length) :
    ∃ t, blockWrite { s with link := (l₂.readBytes n).2 } (l₂.readBytes n).1 = .inl t ∧
      (∃ j, BlockAt l sink data j t) ∧
      t.len.toNat + t.link.sched.length < s.len.toNat + s.link.sched.length := by
  obtain ⟨hp₂, hpolls⟩ := hs.pending_polls hp
  obtain ⟨hkle, hlen, hwritten, htook, hsk⟩ := hs
  rw [hl₂] at hp₂ hpolls
  have hnle : n ≤ l₂.rx.length ∧ n ≤ data.length - k ∧ 0 < n := by
    rw [← hn, blockRead, if_pos (by omega)]
    omega
  have hrx : l₂.rx.length ≤ l₂.pending.length := by simp [Link.pending]
  obtain ⟨l₃, hread, htook₃⟩ := Link.readBytes_eq (n := n) (l := l₂) (by omega) (fun i hi => by
    rw [Link.waitAt_of_lt (by omega), hpolls.timeout, htook.timeout]
    exact hto)
  have htake : l₂.pending.take n = (data.drop k).take n := by
    rw [hp₂, List.take_append_of_le_length (by rw [List.length_drop]; omega)]
  have hbuffLen : (l₂.pending.take n).length = n := by rw [List.length_take]; omega
  refine ⟨⟨s.len - n, s.bytesWritten + n, l₃, wrote sink (data.take (k + n))⟩, ?_,
    ⟨k + n, by omega, ?_, ?_, ?_, rfl⟩, ?_⟩
  · rw [hread, blockWrite]
    dsimp only
    rw [hsk, (hsink.wrote _).write]
    dsimp only
    rw [hbuffLen, if_neg (by simp), if_neg (by simp [wrote, hsink.2]), if_pos (by omega),
      int32_of_lt (by omega) (by omega), htake, List.take_add]
    simp [wrote]
  · dsimp only
    omega
  · dsimp only
    omega
  · simpa [Nat.add_assoc] using (htook.trans hpolls).trans htook₃
  · have := hpolls.sched
    have := htook₃.sched
    dsimp only
    omega

/-- A turn that finds nothing lets time pass: the schedule becomes shorter. -/
theorem polls_sched_lt (hp : l.pending = data ++ rest) (hk : k < data.length)
    (hs : BlockAt l sink data k s)
    (havail : ¬ 0 < s.link.poll.poll.rx.length) :
    s.link.poll.poll.sched.length < s.link.sched.length := by
  have hne : s.link.sched ≠ [] := by
    intro hnil
    obtain ⟨hp₂, -⟩ := hs.pending_polls hp
    have hpoll : s.link.poll = s.link := by simp [Link.poll, hnil]
    rw [hpoll, hpoll] at hp₂ havail
    simp only [Link.pending, hnil, List.flatMap_nil, List.append_nil] at hp₂
    rw [hp₂, List.length_append, List.length_drop] at havail
    omega
  exact lt_of_le_of_lt s.link.poll.took_poll.sched (Link.poll_sched_lt hne)

/-- A turn before that copies what has arrived, or lets time pass. -/
theorem blockTurn_again {buffSize : ℕ} (hbuff : 0 < buffSize)
    (hto : 0 < l.timeout) (hp : l.pending = data ++ rest) (hlt : data.length < 2 ^ 31)
    (hsink : Accepts sink) (hk : k < data.length) (hs : BlockAt l sink data k s) :
    ∃ t, blockTurn buffSize data.length s = .inl t ∧ (∃ j, BlockAt l sink data j t) ∧
      t.len.toNat + t.link.sched.length < s.len.toNat + s.link.sched.length := by
  have hat := hs
  obtain ⟨hkle, hlen, hwritten, htook, hsk⟩ := hs
  have hne : s.link.pending ≠ [] := by
    rw [htook.pending, hp, List.drop_append_of_le_length hkle, ← List.length_pos_iff,
      List.length_append,
      List.length_drop]
    omega
  rw [blockTurn, linkConnected_of_pending hne]
  dsimp only
  rw [if_pos ⟨rfl, by omega⟩]
  show ∃ t, (if 0 < s.link.poll.poll.rx.length then _ else _) = _ ∧ _
  by_cases havail : 0 < s.link.poll.poll.rx.length
  · rw [if_pos havail]
    exact blockTurn_copy hbuff hto hp hlt hsink hk hat rfl rfl havail
  · rw [if_neg havail]
    have hpolls := (hat.pending_polls hp).2
    have hshorter := polls_sched_lt hp hk hat havail
    refine ⟨{ s with link := s.link.poll.poll }, rfl,
      ⟨k, hkle, hlen, hwritten, by simpa using htook.trans hpolls, hsk⟩, ?_⟩
    dsimp only
    omega

/-- **A block that arrives is copied**, whenever its bytes do. -/
theorem writeToStreamDataBlock_yields (hto : 0 < l.timeout)
    (hp : l.pending = data ++ rest) (hlt : data.length < 2 ^ 31) (hsink : Accepts sink) :
    ∃ l', (writeToStreamDataBlock l sink data.length).Yields
        ((data.length : ℤ), l', wrote sink data) ∧ l.Took data.length l' := by
  unfold writeToStreamDataBlock
  set buffSize := if 0 < (data.length : ℤ) ∧ (data.length : ℤ) < tcpBufferSize
    then (data.length : ℤ).toNat else tcpBufferSize with hbuffSize
  have hbuff : 0 < buffSize := by
    rw [hbuffSize]
    split
    · omega
    · decide
  have hinit : ∃ k, BlockAt l sink data k ⟨data.length, 0, l, sink⟩ :=
    ⟨0, Nat.zero_le _, by simp, by simp, Link.Took.refl l, by simp [wrote]⟩
  have hloop : ∃ r, (Fueled.loop (fun s => pure (blockTurn buffSize data.length s))
      ⟨data.length, 0, l, sink⟩).Yields r ∧
        ∃ l', r = ((data.length : ℤ), l', wrote sink data) ∧ l.Took data.length l' := by
    refine Fueled.exists_yields_loop (fun s => ∃ k, BlockAt l sink data k s)
      (fun s => s.len.toNat + s.link.sched.length) _ (fun s hs => ?_) hinit
    obtain ⟨k, hs⟩ := hs
    rcases Nat.lt_or_ge k data.length with hk | hk
    · obtain ⟨t, ht, hI, hv⟩ := blockTurn_again hbuff hto hp hlt hsink hk hs
      exact Or.inr ⟨t, ht ▸ Fueled.yields_pure _, hI, hv⟩
    · obtain rfl : k = data.length := le_antisymm hs.1 hk
      obtain ⟨l', hl', htook⟩ := blockTurn_done _ hs
      exact Or.inl ⟨_, hl' ▸ Fueled.yields_pure _, l', rfl, htook⟩
  obtain ⟨r, hr, l', rfl, htook⟩ := hloop
  exact ⟨l', hr, htook⟩

end HTTPClient
