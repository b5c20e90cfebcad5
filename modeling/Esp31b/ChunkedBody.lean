import Esp31b.HttpBody

/-!
# Chunked bodies

A chunked body is a list of chunks, each a line with its size in hexadecimal
digits, the data, and a line end; a line with size zero and an empty line
close it. `writeToStream` reads a size line, copies the block, and goes on
with the next size line – but the line end behind the data is still there.
What it reads as the next size line is that line end, which is an empty
numeral, so zero, so the end of the body.

A body is therefore decoded if it has no chunk or one, and of a longer one
the first chunk is delivered and reported as everything. The result is an
`int`, so the one chunk has to be shorter than 2^31 bytes.

A wait inside the first size line matters, since it is read with a time-out, and
so does the one for the line end behind the data. Those inside the data do not,
and of a line that is no number, or zero, it is enough that it begins in time.
-/

namespace HTTPClient

/-- A line end. -/
def crlf : List UInt8 := [0x0D, 0x0A]

/-- **A chunk**: some data, and its length as it is written. -/
structure Chunk where
  digits : List UInt8
  data : List UInt8
  data_ne : data ≠ []
  hex : ∀ c ∈ digits, digitVal c < 16
  size : numeral 16 digits = data.length

namespace Chunk

/-- The chunk as it is sent. -/
def encode (c : Chunk) : List UInt8 := c.digits ++ crlf ++ c.data ++ crlf

/-- **Which bytes of it are waited for**: the size line, and the first byte
behind the data. -/
def framing (c : Chunk) : List Bool :=
  List.replicate (c.digits.length + 2) true ++ List.replicate c.data.length false ++ [true]

theorem digits_ne (c : Chunk) : c.digits ≠ [] := by
  intro h
  have hsize := c.size
  rw [h] at hsize
  exact c.data_ne (List.eq_nil_of_length_eq_zero hsize.symm)

end Chunk

/-- **A chunked body.** -/
def chunkedBody (cs : List Chunk) : List UInt8 :=
  cs.flatMap Chunk.encode ++ (ascii "0" ++ crlf ++ crlf)

/-- **Which bytes of it are waited for**: nothing is read behind the first chunk. -/
def framing : List Chunk → List Bool
  | [] => [true]
  | c :: _ => c.framing

/-- The content of a chunked body. -/
def content (cs : List Chunk) : List UInt8 := cs.flatMap Chunk.data

/-- **No wait inside the size line reaches the time-out**, nor the one for the
next line. -/
def SizeLinesPrompt (l : Link) (cs : List Chunk) : Prop :=
  ∀ i, (framing cs)[i]? = some true → l.waitAt i < l.timeout

/-! ## One turn -/

/-- A size line that arrives in time, as `strtol` gets it. -/
theorem trim_sizeLine (c : Chunk) : WString.trim (c.digits ++ [0x0D]) = c.digits := by
  have hdig : ∀ d ∈ c.digits, isspace d = false := fun d hd => (digit_cases (c.hex d hd)).2.1
  rw [WString.trim_concat (by decide)]
  exact WString.trim_of_ends (fun d hd => hdig d (List.mem_of_mem_head? hd))
    (fun d hd => hdig d (List.mem_of_mem_getLast? hd))

theorem lineFeed_not_mem_sizeLine (c : Chunk) : 0x0A ∉ c.digits ++ [0x0D] := by
  intro h
  rcases List.mem_append.mp h with h | h
  · exact absurd (digit_cases (c.hex _ h)).2.1 (by decide)
  · exact absurd h (by decide)

variable {s : ChunkState} {line rest : List UInt8}

/-- **A line that is no number ends the body**, even if the rest of it is late. -/
theorem chunkTurn_last {c : UInt8} (hopen : s.link.fin = false)
    (hp : s.link.pending = c :: line ++ 0x0A :: rest) (hline : 0x0A ∉ c :: line)
    (hw : s.link.waitAt 0 < s.link.timeout)
    (hzero : ∀ j, strtol (WString.trim (c :: line.take j)) 16 = 0) (htotal : s.total ≤ 0)
    (hret : s.ret = int32 s.size) :
    ∃ l', (chunkTurn s).Yields
      (.inr (.ok s.ret, { s with
        size := int32 s.size, total := int32 s.size, link := l' })) := by
  have hpoll := s.link.took_poll
  obtain ⟨j, l', hl', hj, -⟩ :=
    Link.readStringUntil_prefix (l := s.link.poll) (t := 0x0A) (m := 1)
    (by rw [hpoll.pending, hp]; rfl) hline (Nat.succ_le_succ (Nat.zero_le _)) (fun i hi => by
      obtain rfl : i = 0 := Nat.lt_one_iff.mp hi
      rw [hpoll.timeout]
      exact lt_of_le_of_lt (hpoll.waitAt 0) hw)
  obtain ⟨j, rfl⟩ : ∃ k, j = k + 1 := ⟨j - 1, by omega⟩
  rw [List.take_succ_cons] at hl'
  refine ⟨l', ?_⟩
  unfold chunkTurn
  rw [linkConnected_eq hopen]
  have hlen : ¬ (c :: line.take j).length ≤ 0 := by simp
  simp only [hl', hzero, hret, hlen]
  simp [htotal]
  exact Fueled.yields_pure _

/-- **A chunk is copied**, up to the line end behind its data. -/
theorem chunkTurn_chunk {c : Chunk} (hopen : s.link.fin = false)
    (hp : s.link.pending = c.digits ++ crlf ++ (c.data ++ rest)) (hlt : c.data.length < 2 ^ 31)
    (hw : ∀ i < c.digits.length + 2, s.link.waitAt i < s.link.timeout)
    (hsink : Accepts s.sink) :
    ∃ l', (chunkTurn s).Yields (.inl { s with
        size := int32 (s.size + c.data.length), ret :=
          int32 (s.ret + c.data.length), link := l',
        sink := wrote s.sink c.data }) ∧
      s.link.Took (c.digits.length + 2 + c.data.length) l' := by
  have hpoll := s.link.took_poll
  have hp₀ : s.link.poll.pending = c.digits ++ [0x0D] ++ 0x0A :: (c.data ++ rest) := by
    rw [hpoll.pending, hp]
    simp [crlf]
  obtain ⟨l₁, hl₁, htook₁⟩ := Link.readStringUntil_eq hp₀ (lineFeed_not_mem_sizeLine c)
    (fun i hi => by
      rw [hpoll.timeout]
      exact lt_of_le_of_lt (hpoll.waitAt i) (hw i (by simp at hi; omega)))
  have htook₁' := hpoll.trans htook₁
  have hp₁ : l₁.pending = c.data ++ rest := by
    rw [htook₁'.pending, hp, List.drop_append_of_le_length (by simp [crlf])]
    simp [crlf]
  have hto : 0 < l₁.timeout := by
    rw [htook₁'.timeout]
    exact lt_of_le_of_lt (Nat.zero_le _) (hw 0 (by omega))
  obtain ⟨l₂, hl₂, htook₂⟩ := writeToStreamDataBlock_yields hto hp₁ hlt hsink
  have hlen : strtol c.digits 16 = c.data.length := by
    rw [strtol_numeral (le_refl _) c.digits_ne c.hex, c.size]
    exact clampLong_of_le (by omega) (by omega)
  refine ⟨l₂, ?_, ?_⟩
  · unfold chunkTurn
    rw [linkConnected_eq hopen]
    have hpos : (0 : ℤ) < c.data.length := by
      have := List.length_pos_iff.mpr c.data_ne
      omega
    have hnil : ¬ (c.digits ++ [(0x0D : UInt8)]).length ≤ 0 := by simp
    simp only [hl₁, trim_sizeLine, hlen, hnil, hpos, if_true, if_false]
    simp
    refine Fueled.Yields.bind hl₂ ?_
    simp
    exact Fueled.yields_pure _
  · have := htook₁'.trans htook₂
    simpa [Nat.add_assoc] using this

/-! ## The loop over the chunks -/

variable {l : Link} {sink : Sink} {cs : List Chunk}

/-- A body without chunks is read as one. -/
theorem chunks_nil (hopen : l.fin = false) (hp : l.pending = chunkedBody [])
    (hw : SizeLinesPrompt l []) :
    ∃ s, (Fueled.loop chunkTurn ⟨0, 0, -1, l, sink⟩).Yields (.ok 0, s) ∧ s.sink = sink := by
  have hp₀ : l.pending = 0x30 :: [0x0D] ++ 0x0A :: crlf := hp
  have hzero : ∀ j, strtol (WString.trim (0x30 :: [0x0D].take j)) 16 = 0 := by
    intro j
    match j with
    | 0 => decide
    | j + 1 =>
      rw [List.take_succ_cons, List.take_nil]
      decide
  obtain ⟨l', hl'⟩ := chunkTurn_last (s := ⟨0, 0, -1, l, sink⟩) hopen hp₀ (by decide) (hw 0 rfl)
    hzero (show (-1 : ℤ) ≤ 0 by decide) (show (0 : ℤ) = int32 0 by decide)
  exact ⟨_, Fueled.yields_loop_leave hl', rfl⟩

/-- **Of a body with chunks the first is read**, and nothing else. -/
theorem chunks_cons {c : Chunk} (hopen : l.fin = false) (hp : l.pending = chunkedBody (c :: cs))
    (hlt : c.data.length < 2 ^ 31) (hw : SizeLinesPrompt l (c :: cs)) (hsink : Accepts sink) :
    ∃ s, (Fueled.loop chunkTurn ⟨0, 0, -1, l, sink⟩).Yields (.ok (c.data.length : ℤ), s) ∧
      s.sink = wrote sink c.data := by
  have hframe : ∀ i, c.framing[i]? = some true → l.waitAt i < l.timeout := hw
  have hp₀ : l.pending = c.digits ++ crlf ++ (c.data ++ (crlf ++ chunkedBody cs)) := by
    rw [hp]
    simp [chunkedBody, Chunk.encode]
  have hw₀ : ∀ i < c.digits.length + 2, l.waitAt i < l.timeout := by
    intro i hi
    refine hframe i ?_
    rw [Chunk.framing, List.append_assoc, List.getElem?_append_left (by simpa using hi)]
    simp [hi]
  obtain ⟨l₁, hl₁, htook⟩ :=
    chunkTurn_chunk (s := ⟨0, 0, -1, l, sink⟩) (c := c) hopen hp₀ hlt hw₀
    hsink
  have hint : int32 (0 + (c.data.length : ℤ)) = (c.data.length : ℤ) :=
    (int32_of_lt (by omega) (by omega)).trans (Int.zero_add _)
  simp only [hint] at hl₁
  -- what is left starts with the line end behind the data
  have hp₁ : l₁.pending = 0x0D :: [] ++ 0x0A :: chunkedBody cs := by
    have hdrop : c.digits.length + 2 + c.data.length = (c.digits ++ crlf ++ c.data).length := by
      simp [crlf]
      omega
    rw [htook.pending, hp₀, ← List.append_assoc, hdrop, List.drop_left]
    rfl
  have hw₁ : l₁.waitAt 0 < l₁.timeout := by
    rw [htook.timeout]
    refine lt_of_le_of_lt (htook.waitAt 0) (hframe _ ?_)
    have hlen : (List.replicate (c.digits.length + 2) true
        ++ List.replicate c.data.length false).length =
        c.digits.length + 2 + c.data.length := by
      simp
    rw [Chunk.framing, List.getElem?_append_right (by omega), hlen, Nat.add_sub_cancel]
    rfl
  have hzero : ∀ j, strtol (WString.trim (0x0D :: ([] : List UInt8).take j)) 16 = 0 := by
    intro j
    rw [List.take_nil]
    decide
  obtain ⟨l₂, hl₂⟩ := chunkTurn_last
    (s := ⟨c.data.length, c.data.length, -1, l₁, wrote sink c.data⟩)
    (htook.fin.trans hopen) hp₁ (by decide) hw₁ hzero
    (show (-1 : ℤ) ≤ 0 by decide)
    (show (c.data.length : ℤ) =
    int32 c.data.length from (int32_of_lt (by omega) (by omega)).symm)
  exact ⟨_, Fueled.yields_loop_again hl₁ (Fueled.yields_loop_leave hl₂), rfl⟩

/-- A turn that goes on has added up an `int`. -/
theorem chunkTurn_inl_lt {s t : ChunkState} {n : ℕ} (h : chunkTurn s n = some (.inl t)) :
    t.ret < 2 ^ 31 := by
  unfold chunkTurn at h
  dsimp only at h
  split_ifs at h
  · cases Fueled.eq_of_pure h
  · cases Fueled.eq_of_pure h
  · obtain ⟨⟨r, l, sink⟩, -, h⟩ := Fueled.exists_of_bind h
    dsimp only at h
    split_ifs at h
    · cases Fueled.eq_of_pure h
    · cases Fueled.eq_of_pure h
      exact int32_lt _
  all_goals cases Fueled.eq_of_pure h

/-- A turn that leaves does so with the sum so far, or with an error. -/
theorem chunkTurn_inr_cases {s t : ChunkState} {n : ℕ} {res : Except ℤ ℤ}
    (h : chunkTurn s n = some (.inr (res, t))) : res = .ok s.ret ∨ ∃ e < 0, res = .error e := by
  unfold chunkTurn at h
  dsimp only at h
  split_ifs at h
  · cases Fueled.eq_of_pure h
    exact Or.inr ⟨_, by decide, rfl⟩
  · cases Fueled.eq_of_pure h
    exact Or.inr ⟨_, by decide, rfl⟩
  · obtain ⟨⟨r, l, sink⟩, -, h⟩ := Fueled.exists_of_bind h
    dsimp only at h
    split_ifs at h
    · rename_i hneg
      cases Fueled.eq_of_pure h
      exact Or.inr ⟨r, hneg, rfl⟩
    · cases Fueled.eq_of_pure h
  · cases Fueled.eq_of_pure h
    exact Or.inr ⟨_, by decide, rfl⟩
  · cases Fueled.eq_of_pure h
    exact Or.inl rfl
  · cases Fueled.eq_of_pure h
    exact Or.inr ⟨_, by decide, rfl⟩
  · cases Fueled.eq_of_pure h
    exact Or.inl rfl

/-- **The result is an `int`**, whatever arrives. -/
theorem chunks_cases {s t : ChunkState} {n : ℕ} {res : Except ℤ ℤ} (hs : s.ret < 2 ^ 31)
    (h : Fueled.loop chunkTurn s n = some (res, t)) :
    (∃ r < 2 ^ 31, res = .ok r) ∨ ∃ e < 0, res = .error e := by
  refine Fueled.loop_sound (fun s => s.ret < 2 ^ 31)
    (fun a : Except ℤ ℤ × ChunkState => (∃ r < 2 ^ 31, a.1 = .ok r) ∨ ∃ e < 0, a.1 = .error e)
    (fun _ _ _ _ h => chunkTurn_inl_lt h) (fun s n a hs h => ?_) hs h
  obtain ⟨res, t⟩ := a
  rcases chunkTurn_inr_cases h with rfl | herr
  · exact Or.inl ⟨s.ret, hs, rfl⟩
  · exact Or.inr herr

/-! ## The whole -/

variable {c : HTTPClient} {k : Connection}

/-- `writeToStream` in its chunked branch is the loop, and then the end. -/
theorem writeToStream_chunked (hk : c.connection = some k) (hte : c.transferEncoding = .chunked)
    (hopen : k.link.fin = false) (sink : Sink) :
    c.writeToStream (some sink) = (do
      let r ← Fueled.loop chunkTurn ⟨0, 0, c.size, k.link.poll, sink⟩
      let e :=
        ({ (c.setConnection { k with link := r.2.link }) with size := r.2.total }).finish r.1
      return (e.1, some r.2.sink, e.2)) := by
  have hup : c.connected = (true, c.setConnection { k with link := k.link.poll }) := by
    rw [connected, hk]
    dsimp only
    rw [linkConnected_eq hopen]
  have hte' : (c.setConnection { k with link := k.link.poll }).transferEncoding = .chunked :=
    hte
  unfold writeToStream
  dsimp only
  rw [hup]
  dsimp only
  rw [hte']
  rfl

theorem returnError_fst (c : HTTPClient) (e : ℤ) : (c.returnError e).1 = e := by
  unfold returnError
  split <;> rfl

/-- **The body is decoded**: its content is written and its length returned. -/
def Decodes (c : HTTPClient) (sink : Sink) (cs : List Chunk) : Prop :=
  ∃ sink' c', (c.writeToStream (some sink)).Yields ((content cs).length, some sink', c') ∧
    sink'.written = sink.written ++ content cs

/-- What the loop over the chunks ends with is what `writeToStream` returns. -/
theorem yields_of_chunks {s : ChunkState} {ret : ℤ} (hk : c.connection = some k)
    (hte : c.transferEncoding = .chunked) (hopen : k.link.fin = false)
    (hloop : (Fueled.loop chunkTurn ⟨0, 0, c.size, k.link.poll, sink⟩).Yields (.ok ret, s)) :
    ∃ c', (c.writeToStream (some sink)).Yields (ret, some s.sink, c') := by
  rw [writeToStream_chunked hk hte hopen]
  exact ⟨_, Fueled.Yields.bind hloop (Fueled.yields_pure _)⟩

/-- No more than the largest `int` is returned. -/
theorem lt_of_yields {ret : ℤ} {sink' : Option Sink} {c' : HTTPClient}
    (hk : c.connection = some k)
    (hte : c.transferEncoding = .chunked) (hopen : k.link.fin = false)
    (h : (c.writeToStream (some sink)).Yields (ret, sink', c')) : ret < 2 ^ 31 := by
  obtain ⟨N, hN⟩ := h
  have hrun := hN N (le_refl _)
  rw [writeToStream_chunked hk hte hopen] at hrun
  obtain ⟨⟨res, s⟩, hloop, hres⟩ := Fueled.exists_of_bind hrun
  have hret := congrArg Prod.fst (Fueled.eq_of_pure hres)
  rcases chunks_cases (show (0 : ℤ) < 2 ^ 31 by decide) hloop with ⟨r, hr, rfl⟩ | ⟨e, he, rfl⟩
  · exact lt_of_eq_of_lt hret hr
  · refine lt_of_eq_of_lt (hret.trans (returnError_fst _ e)) ?_
    omega

/-- The promptness of a body survives a look at the connection. -/
theorem SizeLinesPrompt.poll (h : SizeLinesPrompt l cs) : SizeLinesPrompt l.poll cs :=
  fun i hi => by
  rw [l.took_poll.timeout]
  exact lt_of_le_of_lt (l.took_poll.waitAt i) (h i hi)

/-- **Of a body with chunks, the first is delivered** and reported as the
whole. -/
theorem writeToStream_first {ch : Chunk} (hk : c.connection = some k)
    (hte : c.transferEncoding = .chunked) (hsize : c.size = -1) (hopen : k.link.fin = false)
    (hp : k.link.pending = chunkedBody (ch :: cs)) (hw : SizeLinesPrompt k.link (ch :: cs))
    (hsink : Accepts sink) (hlt : ch.data.length < 2 ^ 31) :
    ∃ c', (c.writeToStream (some sink)).Yields
      ((ch.data.length : ℤ), some (wrote sink ch.data), c') := by
  have hpoll := k.link.took_poll
  obtain ⟨s, hs, hsink'⟩ :=
    chunks_cons (hpoll.fin.trans hopen) (hpoll.pending.trans hp) hlt hw.poll
    hsink
  obtain ⟨c', hc'⟩ := yields_of_chunks hk hte hopen (hsize ▸ hs)
  exact ⟨c', hsink' ▸ hc'⟩

theorem length_content_cons (ch : Chunk) (cs : List Chunk) :
    (content (ch :: cs)).length = ch.data.length + (content cs).length := by
  simp [content]

/-- **A body is decoded if and only if it has at most one chunk**, of fewer
than 2^31 bytes – provided that what is waited for arrives in time. -/
theorem decodes_iff (hk : c.connection = some k) (hte : c.transferEncoding = .chunked)
    (hsize : c.size = -1) (hopen : k.link.fin = false) (hp : k.link.pending = chunkedBody cs)
    (hw : SizeLinesPrompt k.link cs) (hsink : Accepts sink) :
    Decodes c sink cs ↔ cs = [] ∨ ∃ ch, cs = [ch] ∧ ch.data.length < 2 ^ 31 := by
  constructor
  · rintro ⟨sink', c', hyields, -⟩
    have hlt : ((content cs).length : ℤ) < 2 ^ 31 := lt_of_yields hk hte hopen hyields
    cases cs with
    | nil => exact Or.inl rfl
    | cons ch rest =>
      have hlen := length_content_cons ch rest
      obtain ⟨c'', hc''⟩ := writeToStream_first hk hte hsize hopen hp hw hsink (by omega)
      have hsame := congrArg Prod.fst (hyields.unique hc'')
      dsimp only at hsame
      refine Or.inr ⟨ch, ?_, by omega⟩
      cases rest with
      | nil => rfl
      | cons ch' rest =>
        -- a second chunk has content of its own, which the count lacks
        have hpos := List.length_pos_iff.mpr ch'.data_ne
        have hlen' := length_content_cons ch' rest
        omega
  · rintro (rfl | ⟨ch, rfl, hlt⟩)
    · have hpoll := k.link.took_poll
      obtain ⟨s, hs, hsink'⟩ :=
        chunks_nil (hpoll.fin.trans hopen) (hpoll.pending.trans hp) hw.poll
      obtain ⟨c', hc'⟩ := yields_of_chunks hk hte hopen (hsize ▸ hs)
      exact ⟨s.sink, c', hc', by simp [hsink', content]⟩
    · obtain ⟨c', hc'⟩ := writeToStream_first hk hte hsize hopen hp hw hsink hlt
      refine ⟨wrote sink ch.data, c', ?_, by simp [wrote, content]⟩
      simpa [content] using hc'

/-- A connection over which a chunked body has arrived. -/
def facing (cs : List Chunk) : Connection :=
  ⟨ascii "host", 80, ⟨chunkedBody cs, 0, 5000, [], false⟩, [], []⟩

/-- A client in front of it. -/
def clientFacing (cs : List Chunk) : HTTPClient :=
  { init with tcp := some ⟨some (facing cs), none⟩, transferEncoding := .chunked }

theorem sizeLinesPrompt_facing (cs : List Chunk) : SizeLinesPrompt (facing cs).link cs :=
  fun i _ =>
  lt_of_eq_of_lt (Link.waitAt_of_sched_nil rfl i) (show 0 < 5000 by decide)

theorem pending_facing (cs : List Chunk) : (facing cs).link.pending = chunkedBody cs :=
  List.append_nil _

/-- A chunk of one byte, `a`. -/
def chunkA : Chunk := ⟨ascii "1", ascii "a", by decide, by decide, by decide⟩

theorem decodes_chunkA : Decodes (clientFacing [chunkA]) ⟨[], false, []⟩ [chunkA] :=
  (decodes_iff (k := facing [chunkA]) rfl rfl rfl rfl (pending_facing _)
    (sizeLinesPrompt_facing _)
    ⟨rfl, rfl⟩).mpr (Or.inr ⟨chunkA, rfl, by decide⟩)

/-- **Two chunks of one byte**: one byte is written and 1 returned, as if
that were all. -/
theorem not_decodes_two_chunks :
    ¬ Decodes (clientFacing [chunkA, chunkA]) ⟨[], false, []⟩ [chunkA, chunkA] := by
  rintro ⟨sink', c', hyields, -⟩
  have hsink : Accepts ⟨[], false, []⟩ := ⟨rfl, rfl⟩
  obtain ⟨c'', hc''⟩ := writeToStream_first (c := clientFacing [chunkA, chunkA])
    (k := facing [chunkA, chunkA]) rfl rfl rfl rfl (pending_facing _) (sizeLinesPrompt_facing _)
    hsink (by decide)
  have hsame : ((content [chunkA, chunkA]).length : ℤ) = chunkA.data.length :=
    congrArg Prod.fst (hyields.unique hc'')
  exact absurd hsame (by decide)

end HTTPClient
