import Esp31b.Block
import Esp31b.Machine
import Esp31b.RingWindow

/-!
# The I2S buffers

The DMA goes round a ring of eight buffers. `i2s_slc_isr` puts each buffer that
is finished into a queue, and the writer takes one out when it has filled the
one before. There is one entry less in the queue than there are buffers, for the
one that is being played.

The queue is a window of the ring that ends with the last buffer the interrupt
was for (`I2s.ring_of_run`). If it is full, all the other buffers are in it, and
the next one to be played is the first. The interrupt takes that one out when it
comes; but the DMA has gone on before. A writer that is in front of it then, with
interrupts disabled, gets the buffer that is being played.
-/

/-- The queue, of seven entries, and the buffer that is written to. A buffer is
known by its number. -/
structure SlcQueue where
  queue : List ℕ
  len : ℕ
  currBuf : Option ℕ
  currPos : ℕ

namespace SlcQueue

/-- The loop of `i2s_slc_queue_next_item`. -/
def shiftDown : ℕ → ℕ → List ℕ → Option (List ℕ)
  | 0, _, q => some q
  | turns + 1, i, q => do
    let x ← q[i + 1]?
    let q ← Block.set q i x
    shiftDown turns (i + 1) q

/-- `i2s_slc_queue_next_item`; the length is a byte. -/
def nextItem (s : SlcQueue) : Option (ℕ × SlcQueue) := do
  let item ← s.queue[0]?
  let len := (s.len + 255) % 256
  let queue ← shiftDown len 0 s.queue
  return (item, { s with queue := queue, len := len })

/-- Where all the buffers are empty, space is freed. -/
def makeRoom (s : SlcQueue) : Option SlcQueue :=
  if s.len ≥ 7 then s.nextItem.map Prod.snd else some s

/-- `i2s_slc_isr`, for a buffer that is finished. -/
def isr (s : SlcQueue) (finishedItem : ℕ) : Option SlcQueue := do
  let s ← s.makeRoom
  let queue ← Block.set s.queue s.len finishedItem
  return { s with queue := queue, len := (s.len + 1) % 256 }

/-- `i2s_slc_begin`. -/
def slcBegin (s : SlcQueue) : SlcQueue := { s with len := 0 }

/-- The next sample needs another buffer. -/
def needsBuffer (s : SlcQueue) : Bool := s.currPos = 64 ∨ s.currBuf = none

end SlcQueue

namespace I2s

/-- Where the writer is in `i2s_write_sample`, or in `i2s_write_sample_nb` if it
does not block. -/
inductive Writer where
  | idle
  | tests (blocks : Bool) (sample : UInt32)
  | pops (sample : UInt32)
  | stores (sample : UInt32)
  deriving DecidableEq

/-- A sample that was stored, and where. -/
structure Stored where
  buf : ℕ
  pos : ℕ
  sample : UInt32

end I2s

/-- The queue, how many buffers the DMA has finished, whether the interrupt is
yet to come for the last of them, and the writer; and the buffers that were
popped and the samples that were stored. -/
structure I2s where
  slc : SlcQueue
  finished : ℕ
  pending : Bool
  writer : I2s.Writer
  popped : List ℕ
  stored : List I2s.Stored

namespace I2s

/-- What happens: a buffer is finished and the interrupt comes at once, or it
comes later; and the parts of a call. -/
inductive Event where
  | finishNow
  | finish
  | isr
  | write (blocks : Bool) (sample : UInt32)
  | test
  | pop
  | store

/-- The buffer that is being played. -/
def playing (s : I2s) : ℕ := s.finished % 8

/-- How many interrupts there were. -/
def reported (s : I2s) : ℕ := if s.pending then s.finished - 1 else s.finished

/-- The interrupt for the last buffer. -/
def runIsr (s : I2s) : Option I2s := do
  let slc ← s.slc.isr ((s.finished - 1) % 8)
  return { s with slc := slc, pending := false }

/-- A call begins with the buffer that it has. -/
def write (s : I2s) (blocks : Bool) (sample : UInt32) : I2s :=
  { s with writer := if s.slc.needsBuffer then .tests blocks sample else .stores sample }

/-- The length is looked at: a call that does not block returns if it is 0. -/
def test (s : I2s) (blocks : Bool) (sample : UInt32) : I2s :=
  { s with writer := if s.slc.len = 0 then (if blocks then .tests blocks sample else .idle)
    else .pops sample }

/-- A buffer is popped, with interrupts disabled. -/
def pop (s : I2s) (sample : UInt32) : Option I2s := do
  let (item, slc) ← s.slc.nextItem
  return { s with
    slc := { slc with currBuf := some item, currPos := 0 }
    writer := .stores sample
    popped := s.popped ++ [item] }

/-- The sample is stored. -/
def store (s : I2s) (sample : UInt32) : Option I2s := do
  let buf ← s.slc.currBuf
  return { s with
    slc := { s.slc with currPos := s.slc.currPos + 1 }
    writer := .idle
    stored := s.stored ++ [⟨buf, s.slc.currPos, sample⟩] }

/-- An event. The interrupt for a buffer comes before the next one is
finished. -/
def step (s : I2s) : Event → Option I2s
  | .finishNow =>
    if s.pending then none else runIsr { s with finished := s.finished + 1, pending := true }
  | .finish =>
    if s.pending then none else some { s with finished := s.finished + 1, pending := true }
  | .isr => if s.pending then s.runIsr else none
  | .write blocks sample => if s.writer = .idle then some (s.write blocks sample) else none
  | .test =>
    match s.writer with
    | .tests blocks sample => some (s.test blocks sample)
    | _ => none
  | .pop =>
    match s.writer with
    | .pops sample => s.pop sample
    | _ => none
  | .store =>
    match s.writer with
    | .stores sample => s.store sample
    | _ => none

/-- After `i2s_slc_begin`. -/
def start : I2s where
  slc := SlcQueue.slcBegin ⟨List.replicate 7 0, 0, none, 0⟩
  finished := 0
  pending := false
  writer := .idle
  popped := []
  stored := []

/-- The DMA, the interrupt and the writer, in any order. -/
def machine : Machine I2s Event := ⟨step⟩

/-- **The interrupt comes in time**: if the queue is full, at once. -/
def InTime (s : I2s) : Event → Prop
  | .finish => s.slc.len < 7
  | _ => True

instance (s : I2s) : (e : Event) → Decidable (s.InTime e)
  | .finish => inferInstanceAs (Decidable (_ < _))
  | .finishNow | .isr | .write _ _ | .test | .pop | .store => inferInstanceAs (Decidable True)

/-- The entries of the queue. -/
def entries (s : I2s) : List ℕ := s.slc.queue.take s.slc.len

/-- **What the queue is for**: it has the buffers that were finished last, in
order, without the one that is being played, and the writer uses what it got
from there. -/
structure Ring (s : I2s) : Prop where
  len_le : s.slc.len ≤ 7
  entries : s.entries = List.window 8 (s.reported - s.slc.len) s.slc.len
  begins : s.slc.len ≤ s.reported
  distinct : s.entries.Nodup
  notPlaying : s.playing ∉ s.entries
  pops : ∀ sample, s.writer = .pops sample → 1 ≤ s.slc.len
  stored : ∀ x ∈ s.stored, x.pos < 64 ∧ x.buf ∈ s.popped

end I2s

/-! ## The queue -/

namespace SlcQueue

variable {s : SlcQueue}

/-- **What is shifted**: the entry in front of them is overwritten. -/
theorem shiftDown_eq (a l rest : List ℕ) (x : ℕ) :
    ∃ y, shiftDown l.length a.length (a ++ x :: (l ++ rest)) =
      some (a ++ (l ++ y :: rest)) := by
  induction l generalizing a x with
  | nil => exact ⟨x, rfl⟩
  | cons z l ih =>
    obtain ⟨y, hy⟩ := ih (a ++ [z]) z
    have hget := Block.getElem?_append (a ++ [x]) (l ++ rest) z
    have hset := Block.set_append a (z :: (l ++ rest)) x z
    rw [List.length_append, List.length_singleton, List.append_assoc] at hget hy
    rw [List.append_assoc] at hy
    refine ⟨y, ?_⟩
    rw [List.length_cons, shiftDown]
    show ((a ++ ([x] ++ z :: (l ++ rest)))[a.length + 1]?.bind fun w => do
      let q ← Block.set (a ++ x :: z :: (l ++ rest)) a.length w
      shiftDown l.length (a.length + 1) q) = _
    rw [hget, Option.bind_some, hset, Option.bind_eq_bind, Option.bind_some]
    exact hy

/-- **The first entry is popped**, if there is one. -/
theorem exists_nextItem (hsize : s.queue.length = 7) (hpos : 1 ≤ s.len) (hlen : s.len ≤ 7) :
    ∃ item q, s.nextItem = some (item, { s with queue := q, len := s.len - 1 }) ∧ q.length = 7 ∧
      s.queue.take s.len = item :: q.take (s.len - 1) := by
  have htake : (s.queue.take s.len).length = s.len := by
    rw [List.length_take]
    omega
  obtain ⟨item, l, hl⟩ := List.exists_cons_of_ne_nil
    (List.ne_nil_of_length_pos (by omega : 0 < (s.queue.take s.len).length))
  have hlength : l.length = s.len - 1 := by
    rw [hl, List.length_cons] at htake
    omega
  have hqueue : s.queue = item :: (l ++ s.queue.drop s.len) := by
    rw [← List.cons_append, ← hl, List.take_append_drop]
  obtain ⟨y, hy⟩ := shiftDown_eq [] l (s.queue.drop s.len) item
  refine ⟨item, l ++ y :: s.queue.drop s.len, ?_, ?_, ?_⟩
  · have hlen' : (s.len + 255) % 256 = s.len - 1 := by omega
    have hfirst : s.queue[0]? = some item := by
      rw [hqueue]
      rfl
    rw [List.nil_append, ← hqueue, hlength] at hy
    unfold nextItem
    rw [hfirst, hlen']
    simp only [Option.bind_eq_bind, Option.bind_some]
    rw [List.length_nil] at hy
    rw [hy]
    rfl
  · rw [List.length_append, List.length_cons, List.length_drop, hlength]
    omega
  · rw [hl, ← hlength, List.take_left]

/-- **The interrupt puts the buffer behind the others**, and the first one out
if there are seven. -/
theorem exists_isr (hsize : s.queue.length = 7) (hlen : s.len ≤ 7) (item : ℕ) :
    ∃ q n, s.isr item = some { s with queue := q, len := n } ∧ q.length = 7 ∧ n ≤ 7 ∧ 1 ≤ n ∧
      (s.len < 7 ∧ n = s.len + 1 ∧ q.take n = s.queue.take s.len ++ [item] ∨
        s.len = 7 ∧ n = 7 ∧ q.take n = (s.queue.take s.len).tail ++ [item]) := by
  rcases Nat.lt_or_ge s.len 7 with hlt | hfull
  · have hset : Block.set s.queue s.len item = some (s.queue.set s.len item) :=
      if_pos (by omega)
    have hmod : (s.len + 1) % 256 = s.len + 1 := by omega
    refine ⟨_, s.len + 1, ?_, (Block.length_of_set hset).trans hsize, hlt, by omega,
      Or.inl ⟨hlt, rfl, Block.take_of_set hset⟩⟩
    have hroom : s.makeRoom = some s := if_neg (by omega)
    unfold isr
    rw [hroom, Option.bind_eq_bind, Option.bind_some, hset, hmod]
    rfl
  · have heq : s.len = 7 := by omega
    obtain ⟨x, q, hnext, hq, htake⟩ := exists_nextItem hsize (by omega) hlen
    rw [heq] at hnext htake
    have hset : Block.set q 6 item = some (q.set 6 item) := if_pos (by omega)
    refine ⟨_, 7, ?_, (Block.length_of_set hset).trans hq, le_rfl, by omega,
      Or.inr ⟨heq, rfl, ?_⟩⟩
    · have hroom : s.makeRoom = some { s with queue := q, len := 6 } := by
        unfold makeRoom
        rw [if_pos hfull, hnext]
        rfl
      unfold isr
      rw [hroom, Option.bind_eq_bind, Option.bind_some]
      show ((Block.set q 6 item).bind fun queue => _) = _
      rw [hset]
      rfl
    · rw [heq, htake]
      exact Block.take_of_set hset

end SlcQueue

namespace I2s

variable {s t : I2s}

/-- **What holds at all times** of the queue and of the writer. -/
structure Queued (s : I2s) : Prop where
  size : s.slc.queue.length = 7
  len_le : s.slc.len ≤ 7
  started : s.pending = true → 1 ≤ s.finished
  begins : s.slc.len ≤ s.reported
  entries : s.entries = List.window 8 (s.reported - s.slc.len) s.slc.len
  pops : ∀ sample, s.writer = .pops sample → 1 ≤ s.slc.len
  currBuf : ∀ b, s.slc.currBuf = some b → b ∈ s.popped
  currPos : s.slc.currPos ≤ 64
  stores : ∀ sample, s.writer = .stores sample → s.slc.needsBuffer = false
  stored : ∀ x ∈ s.stored, x.pos < 64 ∧ x.buf ∈ s.popped

theorem queued_start : start.Queued where
  size := rfl
  len_le := by decide
  started := nofun
  begins := le_rfl
  entries := rfl
  pops := nofun
  currBuf := nofun
  currPos := by decide
  stores := nofun
  stored := nofun

theorem reported_of_not_pending (h : s.pending = false) : s.reported = s.finished := by
  unfold reported
  rw [h]
  rfl

theorem reported_of_pending (h : s.pending = true) : s.reported = s.finished - 1 := by
  unfold reported
  rw [h]
  rfl

/-- The DMA goes on; the interrupt has not been there. -/
theorem Queued.finish (h : s.Queued) (hpending : s.pending = false) :
    Queued { s with finished := s.finished + 1, pending := true } := by
  have hreported := reported_of_not_pending hpending
  exact { h with
    started := fun _ => Nat.succ_le_succ (Nat.zero_le _)
    begins := hreported ▸ h.begins
    entries := hreported ▸ h.entries }

/-- **The interrupt** keeps the queue a window. -/
theorem Queued.runIsr (h : s.Queued) (hpending : s.pending = true) :
    ∃ t, s.runIsr = some t ∧ t.Queued ∧ t.pending = false := by
  obtain ⟨q, n, hisr, hq, hn, hpos, hcases⟩ :=
    SlcQueue.exists_isr h.size h.len_le ((s.finished - 1) % 8)
  have hstarted := h.started hpending
  have hbegins := h.begins
  have hentries := h.entries
  rw [reported_of_pending hpending] at hbegins hentries
  refine ⟨_, by unfold I2s.runIsr; rw [hisr]; rfl, ?_, rfl⟩
  have hreported : reported
      { s with slc := { s.slc with queue := q, len := n }, pending := false } = s.finished :=
        rfl
  have hwindow : q.take n = List.window 8 (s.finished - n) n ∧ n ≤ s.finished := by
    rcases hcases with ⟨hlt, rfl, htake⟩ | ⟨hfull, rfl, htake⟩
    · refine ⟨?_, by omega⟩
      have hlo : s.finished - 1 - s.slc.len = s.finished - (s.slc.len + 1) := by omega
      have hlast : s.finished - (s.slc.len + 1) + s.slc.len = s.finished - 1 := by omega
      rw [htake, List.window_append, hlast, ← hlo]
      exact congrArg (· ++ _) hentries
    · refine ⟨?_, by omega⟩
      have hlo : s.finished - 1 - 7 + 1 = s.finished - 7 := by omega
      have hlast : s.finished - 7 + 6 = s.finished - 1 := by omega
      have htail : (s.slc.queue.take s.slc.len).tail = List.window 8 (s.finished - 7) 6 := by
        rw [← hlo]
        exact (congrArg List.tail hentries).trans (by rw [hfull]; rfl)
      rw [htake, htail, List.window_append 8 (s.finished - 7) 6, hlast]
  exact { h with
    size := hq
    len_le := hn
    started := nofun
    begins := hreported ▸ hwindow.2
    entries := hreported ▸ hwindow.1
    pops := fun _ _ => hpos }

/-- **A pop** takes the place the window begins with. -/
theorem Queued.pop (h : s.Queued) {sample : UInt32} (hwriter : s.writer = .pops sample) :
    ∃ t, s.pop sample = some t ∧ t.Queued ∧ t.pending = s.pending ∧ t.slc.len ≤ s.slc.len := by
  have hpos := h.pops sample hwriter
  obtain ⟨item, q, hnext, hq, htake⟩ := SlcQueue.exists_nextItem h.size hpos h.len_le
  have hbegins := h.begins
  have hpop : s.pop sample = some { s with
      slc := { s.slc with queue := q, len := s.slc.len - 1, currBuf := some item, currPos := 0 }
      writer := .stores sample
      popped := s.popped ++ [item] } := by
    unfold I2s.pop
    rw [hnext]
    rfl
  refine ⟨_, hpop, ?_, rfl, Nat.sub_le _ _⟩
  refine { h with
    size := hq
    len_le := (Nat.sub_le _ _).trans h.len_le
    begins := (Nat.sub_le _ _).trans hbegins
    entries := ?_
    pops := nofun
    currBuf := fun b hb => ?_
    currPos := Nat.zero_le _
    stores := fun _ _ => rfl
    stored := fun x hx => ⟨(h.stored x hx).1, List.mem_append_left _ (h.stored x hx).2⟩ }
  · show q.take (s.slc.len - 1) = List.window 8 (s.reported - (s.slc.len - 1)) (s.slc.len - 1)
    obtain ⟨n, hn⟩ : ∃ n, s.slc.len = n + 1 := ⟨s.slc.len - 1, by omega⟩
    have hentries : s.slc.queue.take s.slc.len =
        List.window 8 (s.reported - s.slc.len) s.slc.len :=
      h.entries
    have hlo : s.reported - (n + 1) + 1 = s.reported - n := by omega
    rw [htake, hn, List.window_cons, Nat.add_sub_cancel, hlo] at hentries
    rw [hn, Nat.add_sub_cancel]
    exact (List.cons.inj hentries).2
  · cases hb
    exact List.mem_append_right _ List.mem_cons_self

/-- **A sample is stored** behind the others. -/
theorem Queued.store (h : s.Queued) {sample : UInt32} (hwriter : s.writer = .stores sample) :
    ∃ t, s.store sample = some t ∧ t.Queued ∧ t.pending = s.pending ∧
      t.slc.len = s.slc.len := by
  have hneeds := of_decide_eq_false (h.stores sample hwriter)
  obtain ⟨b, hb⟩ := Option.ne_none_iff_exists'.mp fun hnone => hneeds (Or.inr hnone)
  have hpos : s.slc.currPos < 64 := lt_of_le_of_ne h.currPos fun hfull => hneeds (Or.inl hfull)
  have hstore : s.store sample = some { s with
      slc := { s.slc with currPos := s.slc.currPos + 1 }
      writer := .idle
      stored := s.stored ++ [⟨b, s.slc.currPos, sample⟩] } := by
    unfold I2s.store
    rw [hb]
    rfl
  refine ⟨_, hstore, ?_, rfl, rfl⟩
  refine { h with
    pops := nofun
    currPos := hpos
    stores := nofun
    stored := fun x hx => ?_ }
  rcases List.mem_append.mp hx with hx | hx
  · exact h.stored x hx
  · rw [List.mem_singleton.mp hx]
    exact ⟨hpos, h.currBuf b hb⟩

/-- A call begins. -/
theorem Queued.write (h : s.Queued) (blocks : Bool) (sample : UInt32) :
    (s.write blocks sample).Queued := by
  refine { h with
    pops := fun x hx => ?_
    stores := fun x hx => ?_ }
  · unfold I2s.write at hx
    dsimp only at hx
    split at hx <;> cases hx
  · unfold I2s.write at hx
    dsimp only at hx
    split at hx
    · cases hx
    · rename_i hneeds
      exact Bool.eq_false_iff.mpr hneeds

/-- **The length is looked at**, and stays at least as large until the pop. -/
theorem Queued.test (h : s.Queued) (blocks : Bool) (sample : UInt32) :
    (s.test blocks sample).Queued := by
  refine { h with
    pops := fun x hx => ?_
    stores := fun x hx => ?_ }
  · unfold I2s.test at hx
    dsimp only at hx
    split at hx
    · split at hx <;> cases hx
    · rename_i hlen
      exact Nat.pos_of_ne_zero hlen
  · unfold I2s.test at hx
    dsimp only at hx
    split at hx
    · split at hx <;> cases hx
    · cases hx

/-! ## Runs -/

/-- **The interrupt is in time**: while it is yet to come there is room. -/
structure Good (s : I2s) : Prop where
  queued : s.Queued
  room : s.pending = true → s.slc.len < 7

/-- **One event.** -/
theorem Good.step (h : s.Good) {e : Event} (he : s.InTime e) (ht : s.step e = some t) :
    t.Good := by
  cases e with
  | finishNow =>
    obtain ⟨hpending, ht⟩ := Option.ite_none_left_eq_some.mp ht
    obtain ⟨u, hu, hqueued, hdone⟩ :=
      (h.queued.finish (Bool.eq_false_iff.mpr hpending)).runIsr rfl
    obtain rfl := Option.some.inj (ht.symm.trans hu)
    exact ⟨hqueued, fun hlate => by rw [hdone] at hlate; cases hlate⟩
  | finish =>
    obtain ⟨hpending, rfl⟩ := Machine.of_guard_not ht
    exact ⟨h.queued.finish (Bool.eq_false_iff.mpr hpending), fun _ => he⟩
  | isr =>
    obtain ⟨hpending, ht⟩ := Option.ite_none_right_eq_some.mp ht
    obtain ⟨u, hu, hqueued, hdone⟩ := h.queued.runIsr hpending
    obtain rfl := Option.some.inj (ht.symm.trans hu)
    exact ⟨hqueued, fun hlate => by rw [hdone] at hlate; cases hlate⟩
  | write blocks sample =>
    obtain ⟨-, rfl⟩ := Machine.of_guard ht
    exact ⟨h.queued.write blocks sample, h.room⟩
  | test =>
    unfold I2s.step at ht
    dsimp only at ht
    split at ht
    · cases ht
      exact ⟨h.queued.test _ _, h.room⟩
    · cases ht
  | pop =>
    unfold I2s.step at ht
    dsimp only at ht
    split at ht
    · rename_i hwriter
      obtain ⟨u, hu, hqueued, hpending, hlen⟩ := h.queued.pop hwriter
      obtain rfl := Option.some.inj (ht.symm.trans hu)
      exact ⟨hqueued, fun hlate => hlen.trans_lt (h.room (hpending ▸ hlate))⟩
    · cases ht
  | store =>
    unfold I2s.step at ht
    dsimp only at ht
    split at ht
    · rename_i hwriter
      obtain ⟨u, hu, hqueued, hpending, hlen⟩ := h.queued.store hwriter
      obtain rfl := Option.some.inj (ht.symm.trans hu)
      exact ⟨hqueued, fun hlate => hlen.trans_lt (h.room (hpending ▸ hlate))⟩
    · cases ht

/-- **The buffer that is played is the next one** behind the window. -/
theorem Good.ring (h : s.Good) : s.Ring := by
  have hqueued := h.queued
  have hlen := hqueued.len_le
  have hbegins := hqueued.begins
  refine ⟨hlen, hqueued.entries, hbegins, ?_, ?_, hqueued.pops, hqueued.stored⟩
  · rw [hqueued.entries]
    exact List.nodup_window (by omega)
  · rw [hqueued.entries]
    cases hpending : s.pending with
    | false =>
      rw [reported_of_not_pending hpending] at hbegins ⊢
      exact List.mod_not_mem_window (by omega) (by omega)
    | true =>
      have hroom := h.room hpending
      have hstarted := hqueued.started hpending
      rw [reported_of_pending hpending] at hbegins ⊢
      exact List.mod_not_mem_window (by omega) (by omega)

/-- **The queue is a window of the ring** in every run in which the interrupt
comes in time; and the interrupt and the pop are always possible, so they stay
inside the queue. -/
theorem ring_of_run {es : List Event} (h : machine.Along InTime start es)
    (hrun : machine.run start es = some s) :
    s.Ring ∧ (s.pending = true → ∃ t, s.step .isr = some t) ∧
      ∀ sample, s.writer = .pops sample → ∃ t, s.step .pop = some t := by
  have hgood : s.Good := Machine.invariant_of_along (fun _ _ _ hs he ht => hs.step he ht)
    ⟨queued_start, nofun⟩ h hrun
  refine ⟨hgood.ring, fun hpending => ?_, fun sample hwriter => ?_⟩
  · obtain ⟨t, ht, -⟩ := hgood.queued.runIsr hpending
    exact ⟨t, (if_pos hpending).trans ht⟩
  · obtain ⟨t, ht, -⟩ := hgood.queued.pop hwriter
    refine ⟨t, ?_⟩
    unfold I2s.step
    dsimp only
    rw [hwriter]
    exact ht

/-- A late interrupt while there is room, and one that frees space. -/
theorem ring_of_run_full :
    ∃ s, machine.run start
        [.finish, .write true 7, .test, .isr, .finishNow, .finishNow, .finishNow, .finishNow,
        .finishNow, .finishNow, .finishNow, .test, .pop, .store] = some s ∧
      s.Ring ∧ (s.pending = true → ∃ t, s.step .isr = some t) ∧
      ∀ sample, s.writer = .pops sample → ∃ t, s.step .pop = some t := by
  obtain ⟨s, hs⟩ := Option.isSome_iff_exists.mp
    (by decide : (machine.run start
      [.finish, .write true 7, .test, .isr, .finishNow, .finishNow, .finishNow, .finishNow,
      .finishNow, .finishNow, .finishNow, .test, .pop, .store]).isSome = true)
  exact ⟨s, hs, ring_of_run (by decide) hs⟩

/-- **The buffer that is being played is the next to be popped**: all the others
were in the queue when the DMA went on to it, the writer has looked at the
length, and the interrupt has not been there. -/
theorem not_ring : ¬ ∀ (es : List Event) (s : I2s), machine.run start es = some s → s.Ring := by
  intro h
  have hplayed : (machine.run start [.finishNow, .finishNow, .finishNow, .finishNow, .finishNow,
    .finishNow, .finishNow,
      .write true 7, .test, .finish]).map (fun s => decide (s.playing ∈ s.entries))
        = some true := by
    decide
  obtain ⟨s, hs, hmem⟩ := Option.map_eq_some_iff.mp hplayed
  exact (h _ s hs).notPlaying (of_decide_eq_true hmem)

end I2s
