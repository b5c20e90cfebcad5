import Esp31b.Fueled
import Esp31b.SendPath

/-!
# Sending a body in units

A body is handed to the connection a unit at a time, and the connection may
take less than it is given. Five loops of the server and the client do this.
`sendContent` goes on behind what was taken. The others go on behind the unit,
whatever was taken of it: `sendContent_P`, with a size and without, and
`write_P` do not look at what `write` returns, and the `write` of a file ends
when it is not the whole unit. What was not taken is lost.

So the first always delivers, and each of the others delivers exactly when
the connection takes all of its units whole. They cut the content in the same
way, and what happens at a unit is the same for all (`Outcome`), so only the
ends of the loops differ.
-/

/-- **How much a connection takes**: some of what it is given, depending on
how often it was written to. -/
structure ShortWrites where
  take : ℕ → ℕ → ℕ
  pos : ∀ i n, 0 < n → 0 < take i n
  le : ∀ i n, take i n ≤ n

/-- The writes a connection has had, and the bytes it has taken. -/
structure Intake where
  calls : ℕ
  taken : List UInt8
  deriving DecidableEq, Repr

namespace ShortWrites

/-- `write`. Nothing is not written. -/
def write (σ : ShortWrites) (k : Intake) (data : List UInt8) : ℕ × Intake :=
  if data = [] then (0, k)
  else (σ.take k.calls data.length,
    ⟨k.calls + 1, k.taken ++ data.take (σ.take k.calls data.length)⟩)

end ShortWrites

/-! ## The five loops -/

namespace ESP31BWebServer

open ClientContext (httpDownloadUnitSize)

/-- A turn of the loop of `sendContent`, with what is left to send. -/
def sendContentTurn (σ : ShortWrites) (s : Intake × List UInt8) :
    (Intake × List UInt8) ⊕ Intake :=
  let (k, left) := s
  if left = [] then .inr k
  else
    let (sent, k) := σ.write k (left.take httpDownloadUnitSize)
    if sent = 0 then .inr k else .inl (k, left.drop sent)

/-- `sendContent(content)`. -/
def sendContent (σ : ShortWrites) (k : Intake) (content : List UInt8) : Fueled Intake :=
  Fueled.loop (fun s => pure (sendContentTurn σ s)) (k, content)

end ESP31BWebServer

/-- `memccpy_P`: what is written to `dest`, and how far behind its start the
result points. -/
def memccpyP (mem : ByteMem) (c : UInt8) : ℕ → ℕ → List UInt8 × Option ℕ
  | _, 0 => ([], none)
  | src, count + 1 =>
    if c = mem src then ([mem src], some 1)
    else (mem src :: (memccpyP mem c (src + 1) count).1,
      (memccpyP mem c (src + 1) count).2.map (· + 1))

namespace ESP31BWebServer

open ClientContext (httpDownloadUnitSize)

/-- A turn of the loop of `sendContent_P(content)`; `content` is no longer
there when the terminator was found. -/
def sendContentPTurn (σ : ShortWrites) (mem : ByteMem) (s : Intake × Option ℕ) :
    (Intake × Option ℕ) ⊕ Intake :=
  match s with
  | (k, none) => .inr k
  | (k, some content) =>
    match memccpyP mem 0 content httpDownloadUnitSize with
    | (contentUnit, none) =>
      .inl ((σ.write k (contentUnit.take httpDownloadUnitSize)).2,
        some (content + httpDownloadUnitSize))
    | (contentUnit, some contentNext) =>
        .inl ((σ.write k (contentUnit.take (contentNext - 1))).2, none)

/-- `sendContent_P(content)`. -/
def sendContentP (σ : ShortWrites) (mem : ByteMem) (k : Intake) (content : ℕ) : Fueled Intake :=
  Fueled.loop (fun s => pure (sendContentPTurn σ mem s)) (k, some content)

end ESP31BWebServer

/-- A turn of a loop over units: where the content goes on, and how much
remains. -/
def unitTurn (unitSize : ℕ) (σ : ShortWrites) (mem : ByteMem) (s : Intake × ℕ × ℕ) :
    (Intake × ℕ × ℕ) ⊕ Intake :=
  let (k, buf, remainingSize) := s
  if 0 < remainingSize then
    let unitLen := if remainingSize < unitSize then remainingSize else unitSize
    .inl ((σ.write k (mem.slice buf unitLen)).2, buf + unitLen, remainingSize - unitLen)
  else .inr k

/-- A loop over units that does not look at what was taken. -/
def sendUnits (unitSize : ℕ) (σ : ShortWrites) (mem : ByteMem) (k : Intake) (buf size : ℕ) :
    Fueled Intake :=
  Fueled.loop (fun s => pure (unitTurn unitSize σ mem s)) (k, buf, size)

/-- `sendContent_P(content, size)`. -/
def ESP31BWebServer.sendContentPSize := sendUnits ClientContext.httpDownloadUnitSize

namespace WiFiClient

/-- `WIFICLIENT_MAX_PACKET_SIZE`. -/
def maxPacketSize : ℕ := 1460

/-- `write_P`, on a client with a context. -/
def writeP := sendUnits maxPacketSize

/-- A turn of the loop of `write(source, unitSize)`, with what is left of the
source. -/
def writeTurn (unitSize : ℕ) (σ : ShortWrites) (s : Intake × ℕ × List UInt8) :
    (Intake × ℕ × List UInt8) ⊕ ℕ × Intake :=
  let (k, sizeSent, source) := s
  if source.length = 0 then .inr (sizeSent, k)
  else
    let willSend := if source.length < unitSize then source.length else unitSize
    let (cb, k) := σ.write k (source.take willSend)
    if cb ≠ willSend then .inr (sizeSent + cb, k)
      else .inl (k, sizeSent + cb, source.drop willSend)

/-- `write(source, unitSize)`: the bytes sent. -/
def writeSource (unitSize : ℕ) (σ : ShortWrites) (k : Intake) (source : List UInt8) :
    Fueled (ℕ × Intake) :=
  Fueled.loop (fun s => pure (writeTurn unitSize σ s)) (k, 0, source)

end WiFiClient

/-! ## What a unit leaves -/

/-- **The connection takes all units whole**, from its `i`-th write on. -/
def ShortWrites.TakesUnits (σ : ShortWrites) (unitSize i size : ℕ) : Prop :=
  ∀ j, j * unitSize < size → σ.take (i + j) (min unitSize (size - j * unitSize)) =
    min unitSize (size - j * unitSize)

/-- **What comes of a loop over units**: the connection has taken something,
and all of the content if and only if it took the units whole. -/
def Outcome (σ : ShortWrites) (unitSize : ℕ) (k : Intake) (content : List UInt8) (k' : Intake) :
    Prop :=
  ∃ t, k'.taken = k.taken ++ t ∧ t.length ≤ content.length ∧
    (t = content ↔ σ.TakesUnits unitSize k.calls content.length)

variable {σ : ShortWrites} {unitSize : ℕ} {k k' : Intake} {content : List UInt8} {mem : ByteMem}

namespace ShortWrites

theorem write_of_ne (h : content ≠ []) : σ.write k content =
    (σ.take k.calls content.length,
      ⟨k.calls + 1, k.taken ++ content.take (σ.take k.calls content.length)⟩) :=
  if_neg h

/-- The first unit, and the others. -/
theorem takesUnits_iff {i size : ℕ} (hsize : 0 < size) : σ.TakesUnits unitSize i size ↔
    σ.take i (min unitSize size) = min unitSize size ∧
      σ.TakesUnits unitSize (i + 1) (size - unitSize) := by
  have hnext : ∀ j, size - (j + 1) * unitSize = size - unitSize - j * unitSize := fun j => by
    rw [Nat.add_mul, Nat.one_mul, Nat.sub_sub, Nat.add_comm]
  constructor
  · intro h
    refine ⟨by simpa using h 0 (by omega), fun j hj => ?_⟩
    have hj' := h (j + 1) (by rw [Nat.add_mul]; omega)
    rwa [hnext, show i + (j + 1) = i + 1 + j by omega] at hj'
  · rintro ⟨hfirst, hrest⟩ j hj
    cases j with
    | zero => simpa using hfirst
    | succ j =>
      rw [hnext, show i + (j + 1) = i + 1 + j by omega]
      exact hrest j (by rw [Nat.add_mul] at hj; omega)

end ShortWrites

/-- The connection has all of the content. -/
theorem Outcome.delivered_iff (h : Outcome σ unitSize k content k') :
    k'.taken = k.taken ++ content ↔ σ.TakesUnits unitSize k.calls content.length := by
  obtain ⟨t, ht, -, hiff⟩ := h
  rw [ht, List.append_cancel_left_eq, hiff]

/-- Nothing is left to send. -/
theorem Outcome.nil : Outcome σ unitSize k [] k :=
  ⟨[], by simp, le_rfl, by simp [ShortWrites.TakesUnits]⟩

/-- **A unit is written**, and the rest whatever was taken of it. -/
theorem Outcome.cons (hunit : 0 < unitSize) (hne : content ≠ [])
    (h : Outcome σ unitSize (σ.write k (content.take unitSize)).2 (content.drop unitSize) k') :
    Outcome σ unitSize k content k' := by
  have hpos := List.length_pos_iff.mpr hne
  have hlen : (content.take unitSize).length = min unitSize content.length := List.length_take
  have hle := σ.le k.calls (content.take unitSize).length
  obtain ⟨t, ht, htlen, hiff⟩ := h
  rw [ShortWrites.write_of_ne (by rw [← List.length_pos_iff]; omega)] at ht hiff
  rw [hlen] at hle ht
  refine ⟨(content.take unitSize).take (σ.take k.calls (min unitSize content.length))
    ++ t, ?_, ?_, ?_⟩
  · rw [ht, List.append_assoc]
  · rw [List.length_append, List.length_take, hlen]
    rw [List.length_drop] at htlen
    omega
  · rw [ShortWrites.takesUnits_iff hpos, ← List.length_drop, ← hiff]
    constructor
    · intro heq
      have hlength := congrArg List.length heq
      rw [List.length_append, List.length_take, hlen] at hlength
      rw [List.length_drop] at htlen
      have hwhole : σ.take k.calls (min unitSize content.length) =
          min unitSize content.length := by
        omega
      rw [hwhole, ← hlen, List.take_length] at heq
      exact ⟨hwhole, List.append_cancel_left
        (heq.trans (List.take_append_drop unitSize content).symm)⟩
    · rintro ⟨hwhole, rfl⟩
      rw [hwhole, ← hlen, List.take_length, List.take_append_drop]

/-- **A unit is not taken whole**, and the loop ends. -/
theorem Outcome.short (hunit : 0 < unitSize) (hne : content ≠ [])
    (h : (σ.write k (content.take unitSize)).1 ≠ min unitSize content.length) :
    Outcome σ unitSize k content (σ.write k (content.take unitSize)).2 := by
  have hpos := List.length_pos_iff.mpr hne
  have hlen : (content.take unitSize).length = min unitSize content.length := List.length_take
  have hle := σ.le k.calls (content.take unitSize).length
  rw [ShortWrites.write_of_ne (by rw [← List.length_pos_iff]; omega)] at h ⊢
  rw [hlen] at h hle ⊢
  refine ⟨_, rfl, ?_, ?_⟩
  · rw [List.length_take, hlen]
    omega
  · rw [ShortWrites.takesUnits_iff hpos]
    refine ⟨fun heq => ?_, fun hwhole => absurd hwhole.1 h⟩
    have hlength := congrArg List.length heq
    rw [List.length_take, hlen] at hlength
    exact absurd (by omega) h

/-! ## The loops -/

/-- **A loop over units** comes to its end. -/
theorem sendUnits_outcome (hunit : 0 < unitSize) (σ : ShortWrites) (mem : ByteMem)
    (k : Intake) (buf size : ℕ) :
    ∃ k', (sendUnits unitSize σ mem k buf size).Yields k' ∧
      Outcome σ unitSize k (mem.slice buf size) k' := by
  induction hn : size using Nat.strong_induction_on generalizing k buf size with
  | _ n ih =>
    subst hn
    by_cases hsize : 0 < size
    · have hlen : (if size < unitSize then size else unitSize) = min unitSize size := by
        split <;> omega
      have hturn : unitTurn unitSize σ mem (k, buf, size) =
          .inl ((σ.write k (mem.slice buf (min unitSize size))).2, buf + min unitSize size,
            size - min unitSize size) := by
        simp only [unitTurn, if_pos hsize, hlen]
      -- the unit and what is behind it
      have htake : (mem.slice buf size).take unitSize = mem.slice buf (min unitSize size) := by
        rw [List.take_eq_take_min, ByteMem.length_slice,
          ByteMem.take_slice (Nat.min_le_right _ _)]
      have hdrop : (mem.slice buf size).drop unitSize =
          mem.slice (buf + min unitSize size) (size - min unitSize size) := by
        rw [← ByteMem.drop_slice (Nat.min_le_right _ _), List.drop_eq_drop_min,
          ByteMem.length_slice]
      obtain ⟨k', hyields, hout⟩ := ih (size - min unitSize size) (by omega)
        (σ.write k (mem.slice buf (min unitSize size))).2 (buf + min unitSize size) _ rfl
      refine ⟨k', Fueled.yields_loop_inl hturn hyields, ?_⟩
      refine .cons hunit (by rw [← List.length_pos_iff, ByteMem.length_slice]; exact hsize) ?_
      rwa [htake, hdrop]
    · obtain rfl : size = 0 := by omega
      exact ⟨k, Fueled.yields_loop_inr rfl, Outcome.nil⟩

/-- **The loop over a file** comes to its end. -/
theorem WiFiClient.writeSource_outcome (hunit : 0 < unitSize) (σ : ShortWrites) (k : Intake)
    (source : List UInt8) :
    ∃ n k', (writeSource unitSize σ k source).Yields (n, k') ∧
      Outcome σ unitSize k source k' := by
  unfold writeSource
  generalize (0 : ℕ) = sizeSent
  induction hn : source.length using Nat.strong_induction_on generalizing k source sizeSent with
  | _ n ih =>
    subst hn
    by_cases hne : source = []
    · subst hne
      exact ⟨sizeSent, k, Fueled.yields_loop_inr rfl, Outcome.nil⟩
    have hpos := List.length_pos_iff.mpr hne
    have hlen : (if source.length < unitSize then source.length else unitSize) =
        min unitSize source.length := by
      split <;> omega
    have htake : source.take (min unitSize source.length) = source.take unitSize :=
      List.take_eq_take_min.symm
    have hturn : writeTurn unitSize σ (k, sizeSent, source) =
        if (σ.write k (source.take unitSize)).1 ≠ min unitSize source.length then
          .inr (sizeSent + (σ.write k (source.take unitSize)).1,
            (σ.write k (source.take unitSize)).2)
        else .inl ((σ.write k (source.take unitSize)).2,
          sizeSent + (σ.write k (source.take unitSize)).1,
          source.drop (min unitSize source.length)) := by
      simp only [writeTurn, if_neg (Nat.ne_of_gt hpos), hlen, htake]
    by_cases hwhole : (σ.write k (source.take unitSize)).1 ≠ min unitSize source.length
    · rw [if_pos hwhole] at hturn
      exact ⟨_, _, Fueled.yields_loop_inr hturn, .short hunit hne hwhole⟩
    · rw [if_neg hwhole] at hturn
      rw [← List.drop_eq_drop_min] at hturn
      obtain ⟨n, k', hyields, hout⟩ := ih (source.drop unitSize).length
        (by rw [List.length_drop]; omega) (σ.write k (source.take unitSize)).2 _ _ rfl
      exact ⟨n, k', Fueled.yields_loop_inl hturn hyields,
        .cons hunit hne hout⟩

namespace ESP31BWebServer

open ClientContext (httpDownloadUnitSize)

/-- **`sendContent` delivers**, whatever the connection takes at a time. -/
theorem sendContent_delivers (σ : ShortWrites) (k : Intake) (content : List UInt8) :
    ∃ k', (sendContent σ k content).Yields k' ∧ k'.taken = k.taken ++ content := by
  unfold sendContent
  induction hn : content.length using Nat.strong_induction_on generalizing k content with
  | _ n ih =>
    subst hn
    by_cases hne : content = []
    · subst hne
      exact ⟨k, Fueled.yields_loop_inr rfl, by simp⟩
    have hpos := List.length_pos_iff.mpr hne
    have hunit : 0 < (content.take httpDownloadUnitSize).length := by
      rw [List.length_take, httpDownloadUnitSize]
      omega
    -- some of the unit is taken, and the loop goes on behind it
    have hwrite := ShortWrites.write_of_ne (σ := σ) (k := k) (List.length_pos_iff.mp hunit)
    have hsent := σ.pos k.calls _ hunit
    have hle := σ.le k.calls (content.take httpDownloadUnitSize).length
    generalize σ.take k.calls (content.take httpDownloadUnitSize).length =
      sent at hwrite hsent hle
    have hturn : sendContentTurn σ (k, content) =
      .inl ((σ.write k (content.take httpDownloadUnitSize)).2,
        content.drop sent) := by
      simp only [sendContentTurn, if_neg hne, hwrite, if_neg (Nat.ne_of_gt hsent)]
    obtain ⟨k', hyields, htaken⟩ :=
      ih (content.drop sent).length (by rw [List.length_drop]; omega)
      (σ.write k (content.take httpDownloadUnitSize)).2 _ rfl
    refine ⟨k', Fueled.yields_loop_inl hturn hyields, ?_⟩
    rw [List.length_take] at hle
    rw [htaken, hwrite, List.append_assoc, List.take_take, Nat.min_eq_left (by omega),
      List.take_append_drop]

end ESP31BWebServer

/-! ### Up to a terminator -/

/-- Without the character among the bytes, all of them are copied. -/
theorem memccpyP_none {c : UInt8} {src count : ℕ} (h : ∀ i < count, mem (src + i) ≠ c) :
    memccpyP mem c src count = (mem.slice src count, none) := by
  induction count generalizing src with
  | zero => rfl
  | succ count ih =>
    have hfirst : c ≠ mem src := fun heq => h 0 (by omega) heq.symm
    have hbehind : ∀ i < count, mem (src + 1 + i) ≠ c := fun i hi => by
      rw [Nat.add_assoc, Nat.add_comm 1 i]
      exact h (i + 1) (by omega)
    have hrest := ih hbehind
    rw [memccpyP, if_neg hfirst, hrest, ByteMem.slice_succ]
    rfl

/-- Otherwise the copy ends behind it. -/
theorem memccpyP_some {c : UInt8} {src n count : ℕ} (hcount : n < count)
    (h : ∀ i < n, mem (src + i) ≠ c)
    (hc : mem (src + n) = c) :
    memccpyP mem c src count = (mem.slice src (n + 1), some (n + 1)) := by
  induction n generalizing src count with
  | zero =>
    obtain ⟨count, rfl⟩ : ∃ m, count = m + 1 := ⟨count - 1, by omega⟩
    have hfirst : c = mem src := hc.symm
    rw [memccpyP, if_pos hfirst]
    rfl
  | succ n ih =>
    obtain ⟨count, rfl⟩ : ∃ m, count = m + 1 := ⟨count - 1, by omega⟩
    have hfirst : c ≠ mem src := fun heq => h 0 (by omega) heq.symm
    have hbehind : ∀ i < n, mem (src + 1 + i) ≠ c := fun i hi => by
      rw [Nat.add_assoc, Nat.add_comm 1 i]
      exact h (i + 1) (by omega)
    have hfound : mem (src + 1 + n) = c := by rw [Nat.add_assoc, Nat.add_comm 1 n]; exact hc
    have hrest := ih (by omega : n < count) hbehind hfound
    rw [memccpyP, if_neg hfirst, hrest, ByteMem.slice_succ mem src (n + 1)]
    rfl

namespace ESP31BWebServer

open ClientContext (httpDownloadUnitSize)

/-- **The loop over a C string** comes to its end. -/
theorem sendContentP_outcome {n : ℕ} (σ : ShortWrites) (k : Intake) (content : ℕ)
    (hplain : ∀ i < n, mem (content + i) ≠ 0) (hend : mem (content + n) = 0) :
    ∃ k', (sendContentP σ mem k content).Yields k' ∧
      Outcome σ httpDownloadUnitSize k (mem.slice content n) k' := by
  have hunit : 0 < httpDownloadUnitSize := by decide
  unfold sendContentP
  induction n using Nat.strong_induction_on generalizing k content with
  | _ n ih =>
    by_cases hn : httpDownloadUnitSize ≤ n
    · -- a unit without the terminator
      have hturn : sendContentPTurn σ mem (k, some content) =
          .inl ((σ.write k (mem.slice content httpDownloadUnitSize)).2,
            some (content + httpDownloadUnitSize)) := by
        rw [sendContentPTurn, memccpyP_none (fun i hi => hplain i (by omega))]
        dsimp only
        rw [List.take_of_length_le (by rw [ByteMem.length_slice])]
      have hrest : content + httpDownloadUnitSize + (n - httpDownloadUnitSize) =
          content + n := by
        omega
      obtain ⟨k', hyields, hout⟩ := ih (n - httpDownloadUnitSize) (by omega)
        (σ.write k (mem.slice content httpDownloadUnitSize)).2 (content + httpDownloadUnitSize)
        (fun i hi => by
          rw [Nat.add_assoc]
          exact hplain _ (by omega))
        (by rw [hrest]; exact hend)
      refine ⟨k', Fueled.yields_loop_inl hturn hyields, .cons hunit ?_ ?_⟩
      · rw [← List.length_pos_iff, ByteMem.length_slice]
        omega
      · rwa [ByteMem.take_slice hn, ByteMem.drop_slice hn]
    · -- the last one, which may be empty
      have hturn : sendContentPTurn σ mem (k, some content) =
          .inl ((σ.write k (mem.slice content n)).2, none) := by
        rw [sendContentPTurn, memccpyP_some (by omega) hplain hend]
        dsimp only
        rw [Nat.add_sub_cancel, ByteMem.take_slice (by omega)]
      refine ⟨_, Fueled.yields_loop_inl hturn (Fueled.yields_loop_inr rfl), ?_⟩
      by_cases hzero : n = 0
      · subst hzero
        exact Outcome.nil
      · refine .cons hunit (by rw [← List.length_pos_iff, ByteMem.length_slice]; omega) ?_
        rw [List.take_of_length_le (by rw [ByteMem.length_slice]; omega),
          List.drop_eq_nil_of_le (by rw [ByteMem.length_slice]; omega)]
        exact Outcome.nil

end ESP31BWebServer

/-! ## Does every loop deliver? -/

/-- **The connection gets the whole content.** -/
def Delivers (m : Fueled Intake) (k : Intake) (content : List UInt8) : Prop :=
  ∃ k', m.Yields k' ∧ k'.taken = k.taken ++ content

theorem Outcome.delivers_iff {m : Fueled Intake} (h : Outcome σ unitSize k content k')
    (hm : m.Yields k') :
    Delivers m k content ↔ σ.TakesUnits unitSize k.calls content.length := by
  rw [← h.delivered_iff]
  constructor
  · rintro ⟨k'', hyields, htaken⟩
    rwa [hm.unique hyields]
  · exact fun htaken => ⟨k', hm, htaken⟩

/-- **All five deliver** the content, which is at `buf` in memory, followed by
a NUL for the one that looks for it. -/
structure AllDeliver (σ : ShortWrites) (unitSize : ℕ) (k : Intake) (mem : ByteMem) (buf : ℕ)
    (content : List UInt8) : Prop where
  sendContent : Delivers (ESP31BWebServer.sendContent σ k content) k content
  sendContentP : 0 ∉ content → mem (buf + content.length) = 0 →
    Delivers (ESP31BWebServer.sendContentP σ mem k buf) k content
  sendContentPSize :
    Delivers (ESP31BWebServer.sendContentPSize σ mem k buf content.length) k content
  writeP : Delivers (WiFiClient.writeP σ mem k buf content.length) k content
  writeSource : Delivers (do return (← WiFiClient.writeSource unitSize σ k content).2) k content

/-- **When all deliver**: when the connection takes every unit whole. -/
theorem allDeliver_iff {buf : ℕ} (hunit : 0 < unitSize)
    (hmem : mem.slice buf content.length = content) :
    AllDeliver σ unitSize k mem buf content ↔
      σ.TakesUnits ClientContext.httpDownloadUnitSize k.calls content.length ∧
        σ.TakesUnits unitSize k.calls content.length := by
  have hsize : ∀ {size : ℕ}, 0 < size →
    (Delivers (sendUnits size σ mem k buf content.length) k content ↔
      σ.TakesUnits size k.calls content.length) := fun {size} hpos => by
    obtain ⟨k', hyields, hout⟩ := sendUnits_outcome hpos σ mem k buf content.length
    rw [hmem] at hout
    exact hout.delivers_iff hyields
  have hsource :
      Delivers (do return (← WiFiClient.writeSource unitSize σ k content).2) k content ↔
      σ.TakesUnits unitSize k.calls content.length := by
    obtain ⟨n, k', hyields, hout⟩ := WiFiClient.writeSource_outcome hunit σ k content
    exact hout.delivers_iff (hyields.bind (Fueled.yields_pure _))
  constructor
  · intro h
    exact ⟨(hsize (by decide)).mp h.sendContentPSize, hsource.mp h.writeSource⟩
  · rintro ⟨hunits, hfile⟩
    exact {
      sendContent := ESP31BWebServer.sendContent_delivers σ k content
      sendContentP := fun hplain hend => by
        have hfree : ∀ i < content.length, mem (buf + i) ≠ 0 := fun i hi heq => by
          have hslice : mem (buf + i) ∈ mem.slice buf content.length := ByteMem.mem_slice hi
          rw [heq, hmem] at hslice
          exact hplain hslice
        obtain ⟨k', hyields, hout⟩ := ESP31BWebServer.sendContentP_outcome σ k buf hfree hend
        rw [hmem] at hout
        exact (hout.delivers_iff hyields).mpr hunits
      sendContentPSize := (hsize (by decide)).mpr hunits
      writeP := (hsize (by decide)).mpr hunits
      writeSource := hsource.mpr hfile }

/-- The whole of what is given, or a byte at a time. -/
def takesAll : ShortWrites := ⟨fun _ n => n, fun _ _ h => h, fun _ _ => le_rfl⟩

def takesOne : ShortWrites :=
  ⟨fun _ n => min 1 n, fun _ _ h => lt_min Nat.one_pos h, fun _ _ => min_le_right _ _⟩

/-- A short content, followed by a NUL. -/
def shortContent : List UInt8 := [0x61, 0x62]

def shortMem : ByteMem := fun i => shortContent.getD i 0

theorem allDeliver_iff_takesAll : AllDeliver takesAll 1 ⟨0, []⟩ shortMem 0 shortContent :=
  (allDeliver_iff (by decide) (by decide)).mpr ⟨fun _ _ => rfl, fun _ _ => rfl⟩

/-- **Half of the content is delivered** by `sendContent_P`, all of it by
`sendContent`. -/
theorem not_allDeliver : ¬ AllDeliver takesOne 1 ⟨0, []⟩ shortMem 0 shortContent ∧
    (ESP31BWebServer.sendContentP takesOne shortMem ⟨0, []⟩ 0).Yields ⟨1, [0x61]⟩ ∧
    (ESP31BWebServer.sendContent takesOne ⟨0, []⟩ shortContent).Yields ⟨2, shortContent⟩ := by
  have hsteady : ∀ {s : Type} (body : s → s ⊕ Intake) (a : s) (n : ℕ) (k : Intake),
      Fueled.loop (fun s => pure (body s)) a n = some k →
        (Fueled.loop (fun s => pure (body s)) a).Yields k :=
    fun body a n k h => (Fueled.steady_loop (fun _ => Fueled.steady_pure _) _).yields h
  have hhalf : (ESP31BWebServer.sendContentP takesOne shortMem ⟨0, []⟩ 0).Yields ⟨1, [0x61]⟩ :=
    hsteady _ _ 3 _ (by decide)
  have hall : (ESP31BWebServer.sendContent takesOne ⟨0, []⟩ shortContent).Yields
      ⟨2, shortContent⟩ :=
    hsteady _ _ 3 _ (by decide)
  refine ⟨fun h => ?_, hhalf, hall⟩
  obtain ⟨k', hyields, htaken⟩ := h.sendContentP (by decide) (by decide)
  obtain rfl := hhalf.unique hyields
  exact absurd htaken (by decide)
