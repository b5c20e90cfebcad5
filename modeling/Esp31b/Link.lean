import Mathlib.Data.List.GetD
import Mathlib.Data.Nat.Basic

/-!
# A connection seen in time

The parsers of this library read a TCP connection while its bytes are still
arriving, and what they do depends on when they look. A `Link` is one
connection as its reader sees it: the bytes received and not read, and the
schedule of what is still to come. Every look at the connection – `read`,
`available`, `connected` – first lets one slice of the schedule happen: some
time passes and some bytes arrive, often none. The schedule is arbitrary, so
a statement about every schedule is a statement about every way the bytes
become available, between any two instructions of the reader. When the
schedule is used up nothing more arrives, and the peer has closed the
connection if `fin` says so.

The receive queue itself is the one of `ReceiveQueue`: bytes leave it in
order, each once.

## What a reader relies on

`Link.pending` is all that is still to be read, arrived or not, and
`Link.waitAt i` bounds how long a reader that has taken everything before
byte `i` waits for it. `Link.Took` relates a connection to itself after some
bytes were taken: those bytes are gone, nothing else is, and no wait got
longer. Everything that reads is specified by what it took.
-/

/-- **One slice of a schedule**: some milliseconds pass, then these bytes
have arrived. -/
structure Slice where
  bytes : List UInt8
  ms : ℕ
  deriving DecidableEq, Repr

/-- **A connection as its reader sees it.** -/
structure Link where
  /-- Received and not read. -/
  rx : List UInt8
  /-- `millis()`. -/
  now : ℕ
  /-- `Stream::_timeout`. -/
  timeout : ℕ
  /-- What is still to come. -/
  sched : List Slice
  /-- Whether the peer closes the connection behind the last slice. -/
  fin : Bool
  deriving DecidableEq, Repr

namespace Link

/-! ## `WiFiClient` -/

/-- One slice happens. -/
def poll (l : Link) : Link :=
  match l.sched with
  | [] => l
  | s :: rest => { l with rx := l.rx ++ s.bytes, now := l.now + s.ms, sched := rest }

/-- The pcb is there and established. -/
def up (l : Link) : Bool := !(l.fin && l.sched.isEmpty)

/-- `WiFiClient::available`. -/
def available (l : Link) : ℕ × Link :=
  (l.poll.rx.length, l.poll)

/-- `WiFiClient::connected`: established, or closed with bytes left. -/
def connected (l : Link) : Bool × Link :=
  (l.poll.up || !l.poll.rx.isEmpty, l.poll)

/-- `WiFiClient::read`, where `none` is the -1 of an empty queue. -/
def read (l : Link) : Option UInt8 × Link :=
  match l.poll.rx with
  | [] => (none, l.poll)
  | c :: rx => (some c, { l.poll with rx := rx })

/-- `WiFiClient::flush`. -/
def flush (l : Link) : Link := { l.poll with rx := [] }

/-! ## `Stream` -/

/-- The turns of the loop of `timedRead`. Out of turns, nothing more is to
arrive and the rest of the time-out passes. -/
def timedReadFrom (start : ℕ) : ℕ → Link → Option UInt8 × Link
  | 0, l => (none, { l with now := start + l.timeout })
  | n + 1, l =>
    match l.read with
    | (some c, l) => (some c, l)
    | (none, l) => if l.now - start < l.timeout then timedReadFrom start n l else (none, l)

/-- `Stream::timedRead`, where `none` is the -1 of a time-out. -/
def timedRead (l : Link) : Option UInt8 × Link :=
  timedReadFrom l.now (l.sched.length + 1) l

/-- `Stream::readBytes`: what was put into the buffer. -/
def readBytes : ℕ → Link → List UInt8 × Link
  | 0, l => ([], l)
  | n + 1, l =>
    match l.timedRead with
    | (none, l) => ([], l)
    | (some c, l) => (c :: (readBytes n l).1, (readBytes n l).2)

/-- Everything still to be read, arrived or not. -/
def pending (l : Link) : List UInt8 := l.rx ++ l.sched.flatMap Slice.bytes

/-- The turns of the loop of `readStringUntil`; each takes a byte, so there
are at most as many as bytes pending. -/
def readUntilFrom (terminator : UInt8) : ℕ → Link → List UInt8 × Link
  | 0, l => ([], l)
  | n + 1, l =>
    match l.timedRead with
    | (none, l) => ([], l)
    | (some c, l) =>
      if c = terminator then ([], l)
      else (c :: (readUntilFrom terminator n l).1, (readUntilFrom terminator n l).2)

/-- `Stream::readStringUntil`. -/
def readStringUntil (terminator : UInt8) (l : Link) : List UInt8 × Link :=
  readUntilFrom terminator (l.pending.length + 1) l

/-! ## Waiting for a byte -/

/-- How long each byte of a schedule is waited for, `acc` being the time
waited already: the slices before it that bring nothing. -/
def waitsFrom (acc : ℕ) : List Slice → List ℕ
  | [] => []
  | s :: rest =>
    match s.bytes with
    | [] => waitsFrom (acc + s.ms) rest
    | _ :: bs => acc :: (List.replicate bs.length 0 ++ waitsFrom 0 rest)

/-- **The wait for the `i`-th pending byte**, by a reader that has taken
those before it; nothing for a byte that has arrived. -/
def waitAt (l : Link) (i : ℕ) : ℕ :=
  (List.replicate l.rx.length 0 ++ waitsFrom 0 l.sched).getD i 0

/-- **No wait reaches the time-out.** -/
def Prompt (l : Link) : Prop :=
  0 < l.timeout ∧ ∀ i < l.pending.length, l.waitAt i < l.timeout

/-- **Between the two, `k` bytes were taken**: they are gone and nothing else
is, and no wait got longer. -/
structure Took (l : Link) (k : ℕ) (l' : Link) : Prop where
  le : k ≤ l.pending.length
  pending : l'.pending = l.pending.drop k
  waitAt : ∀ i, l'.waitAt i ≤ l.waitAt (i + k)
  timeout : l'.timeout = l.timeout
  fin : l'.fin = l.fin
  sched : l'.sched.length ≤ l.sched.length

namespace Took

variable {l l' l'' : Link} {j k : ℕ}

theorem refl (l : Link) : l.Took 0 l :=
  ⟨Nat.zero_le _, rfl, fun _ => le_refl _, rfl, rfl, le_refl _⟩

theorem trans (h : l.Took j l') (h' : l'.Took k l'') : l.Took (j + k) l'' where
  le := by
    have := h'.le
    rw [h.pending, List.length_drop] at this
    have := h.le
    omega
  pending := by rw [h'.pending, h.pending, List.drop_drop]
  waitAt i := by
    have := h.waitAt (i + k)
    rw [show i + k + j = i + (j + k) by omega] at this
    exact le_trans (h'.waitAt i) this
  timeout := h'.timeout.trans h.timeout
  fin := h'.fin.trans h.fin
  sched := le_trans h'.sched h.sched

theorem prompt (h : l.Took k l') (hl : l.Prompt) : l'.Prompt := by
  refine ⟨h.timeout ▸ hl.1, fun i hi => ?_⟩
  rw [h.pending, List.length_drop] at hi
  rw [h.timeout]
  exact lt_of_le_of_lt (h.waitAt i) (hl.2 (i + k) (by omega))

end Took

/-! ### The waits of a schedule -/

theorem waitsFrom_mono {a b : ℕ} (h : a ≤ b) (sched : List Slice) (i : ℕ) :
    (waitsFrom a sched).getD i 0 ≤ (waitsFrom b sched).getD i 0 := by
  induction sched generalizing a b with
  | nil => exact le_refl _
  | cons s rest ih =>
    unfold waitsFrom
    split
    · exact ih (by omega)
    · cases i with
      | zero => exact h
      | succ i => exact le_refl _

/-- The first wait counts what was waited already. -/
theorem le_waitsFrom {a : ℕ} {sched : List Slice} (h : sched.flatMap Slice.bytes ≠ []) :
    a ≤ (waitsFrom a sched).getD 0 0 := by
  induction sched generalizing a with
  | nil => exact absurd rfl h
  | cons s rest ih =>
    unfold waitsFrom
    split
    · rename_i hs
      rw [List.flatMap_cons, hs, List.nil_append] at h
      exact le_trans (Nat.le_add_right _ _) (ih h)
    · exact le_refl _

theorem waitAt_of_lt {l : Link} {i : ℕ} (h : i < l.rx.length) : l.waitAt i = 0 := by
  unfold waitAt
  rw [List.getD_append _ _ _ _ (by simpa using h), List.getD_eq_getElem _ _ (by simpa using h)]
  exact List.getElem_replicate _

/-- Nothing is waited for when everything is there. -/
theorem waitAt_of_sched_nil {l : Link} (h : l.sched = []) (i : ℕ) : l.waitAt i = 0 := by
  unfold waitAt
  rw [h, waitsFrom, List.append_nil, List.getD_eq_getElem?_getD, List.getElem?_replicate]
  split <;> rfl

theorem waitAt_zero_of_rx_nil {l : Link} (h : l.rx = []) :
    l.waitAt 0 = (waitsFrom 0 l.sched).getD 0 0 := by
  unfold waitAt
  rw [h]
  rfl

/-! ### Looking and taking one byte -/

theorem poll_pending (l : Link) : l.poll.pending = l.pending := by
  unfold poll pending
  split
  · rfl
  · rename_i hs
    simp [hs]

theorem took_poll (l : Link) : l.Took 0 l.poll where
  le := Nat.zero_le _
  pending := l.poll_pending
  waitAt i := by
    unfold waitAt poll
    split
    · exact le_refl _
    · rename_i s rest hs
      rw [hs]
      cases hb : s.bytes with
      | nil =>
        -- the time of an empty slice is no longer ahead
        simp only [waitsFrom, hb, List.append_nil]
        by_cases hi : i < l.rx.length
        · rw [List.getD_append _ _ _ _ (by simpa using hi)]
          exact le_of_eq_of_le (by simp [hi]) (Nat.zero_le _)
        · rw [List.getD_append_right _ _ _ _ (by simpa using hi),
            List.getD_append_right _ _ _ _ (by simpa using hi)]
          exact waitsFrom_mono (Nat.zero_le _) rest _
      | cons b bs =>
        refine le_of_eq (congrArg (fun ws => List.getD ws i 0) ?_)
        simp [waitsFrom, hb, ← List.replicate_append_replicate, List.replicate_succ]
  timeout := by unfold poll; split <;> rfl
  fin := by unfold poll; split <;> rfl
  sched := by
    unfold poll
    split
    · exact le_refl _
    · rename_i s rest hs
      simp [hs]

/-- A slice that is still to come happens at the next look. -/
theorem poll_sched_lt {l : Link} (h : l.sched ≠ []) : l.poll.sched.length < l.sched.length := by
  obtain ⟨s, rest, hs⟩ := List.exists_cons_of_ne_nil h
  simp [poll, hs]

/-- An open link is up. -/
theorem connected_eq {l : Link} (h : l.fin = false) : l.connected = (true, l.poll) := by
  have hfin : l.poll.fin = false := l.took_poll.fin.trans h
  simp [connected, up, hfin]

/-- Taking the first byte of the queue. -/
theorem took_tail {l : Link} {c : UInt8} {rx : List UInt8} (h : l.rx = c :: rx) :
    l.Took 1 { l with rx := rx } where
  le := by simp [Link.pending, h]
  pending := by simp [Link.pending, h]
  waitAt i := by
    refine le_of_eq ?_
    simp [Link.waitAt, h, List.replicate_succ]
  timeout := rfl
  fin := rfl
  sched := le_refl _

/-- What a look for one byte can give: nothing, or the first pending byte. -/
def Takes (l : Link) (r : Option UInt8 × Link) : Prop :=
  (r.1 = none ∧ l.Took 0 r.2) ∨ ∃ c, r.1 = some c ∧ l.pending.head? = some c ∧ l.Took 1 r.2

theorem read_takes (l : Link) : l.Takes l.read := by
  unfold read
  split
  · exact Or.inl ⟨rfl, l.took_poll⟩
  · rename_i c rx hrx
    refine Or.inr ⟨c, rfl, ?_, ?_⟩
    · rw [← poll_pending, pending, hrx]
      rfl
    · simpa using l.took_poll.trans (took_tail hrx)

/-- A byte that has arrived is read. -/
theorem read_eq {l : Link} {c : UInt8} {rest : List UInt8} (hrx : l.rx ≠ [])
    (hp : l.pending = c :: rest) : ∃ l', l.read = (some c, l') ∧ l.Took 1 l' := by
  have hne : l.read.1 ≠ none := by
    have hpoll : l.poll.rx ≠ [] := by
      unfold poll
      split
      · exact hrx
      · simp [hrx]
    unfold read
    split
    · rename_i hnil
      exact absurd hnil hpoll
    · simp
  obtain ⟨hnone, -⟩ | ⟨d, hd, hhead, htook⟩ := l.read_takes
  · exact absurd hnone hne
  · obtain rfl : c = d := by simpa [hp] using hhead
    exact ⟨l.read.2, Prod.ext hd rfl, htook⟩

/-- A look that finds nothing of what is to come brings it nearer. -/
theorem sched_ne_nil {l : Link} (hp : l.pending ≠ []) (hrx : l.poll.rx = []) :
    l.sched ≠ [] := by
  intro hs
  refine hp ?_
  rw [poll, hs] at hrx
  simp [pending, hs, hrx]

theorem timedReadFrom_takes (start n : ℕ) (l : Link) : l.Takes (timedReadFrom start n l) := by
  induction n generalizing l with
  | zero => exact Or.inl ⟨rfl, ⟨Nat.zero_le _, rfl, fun _ => le_refl _, rfl, rfl, le_refl _⟩⟩
  | succ n ih =>
    have hread := l.read_takes
    unfold timedReadFrom
    split
    · rename_i c l' hl
      rwa [hl] at hread
    · rename_i l' hl
      rw [hl] at hread
      obtain ⟨-, htook⟩ | ⟨c, hc, -⟩ := hread
      · split
        · -- the loop goes on from where nothing was taken
          obtain ⟨hnone, h⟩ | ⟨c, hc, hhead, h⟩ := ih l'
          · exact Or.inl ⟨hnone, by simpa using htook.trans h⟩
          · exact Or.inr ⟨c, hc, by rw [← hhead, htook.pending, List.drop_zero],
              by simpa using htook.trans h⟩
        · exact Or.inl ⟨rfl, htook⟩
      · cases hc

theorem timedRead_takes (l : Link) : l.Takes l.timedRead := timedReadFrom_takes _ _ l

/-- The loop of `timedRead` meets a byte whose wait is short enough. -/
theorem timedReadFrom_ne_none {start n : ℕ} {l : Link} (hn : l.sched.length < n)
    (hnow : start ≤ l.now) (hp : l.pending ≠ [])
    (hw : l.rx = [] → (waitsFrom (l.now - start) l.sched).getD 0 0 < l.timeout) :
    (timedReadFrom start n l).1 ≠ none := by
  induction n generalizing l with
  | zero => omega
  | succ n ih =>
    unfold timedReadFrom
    split
    · simp
    · rename_i l' hl
      have hrx : l.poll.rx = [] := by
        unfold read at hl
        split at hl
        · assumption
        · cases hl
      obtain rfl : l.poll = l' := by
        unfold read at hl
        rw [hrx] at hl
        exact (Prod.mk.inj hl).2
      -- nothing had arrived, so the slice that happened was an empty one
      cases hs : l.sched with
      | nil => exact absurd hs (sched_ne_nil hp hrx)
      | cons s rest =>
        have hpoll : l.poll =
            { l with rx := l.rx ++ s.bytes, now := l.now + s.ms, sched := rest } := by
          simp [poll, hs]
        have hnil : l.rx = [] ∧ s.bytes = [] := by simpa [hpoll] using hrx
        have hwait : (waitsFrom (l.now + s.ms - start) rest).getD 0 0 < l.timeout := by
          have := hw hnil.1
          rw [hs] at this
          rw [show l.now + s.ms - start = l.now - start + s.ms by omega]
          simpa [waitsFrom, hnil.2] using this
        have hrest : rest.flatMap Slice.bytes ≠ [] := by
          simpa [pending, hs, hnil.1, hnil.2] using hp
        have hlt : l.now + s.ms - start < l.timeout := lt_of_le_of_lt (le_waitsFrom hrest) hwait
        rw [hpoll]
        dsimp only
        rw [if_pos hlt]
        refine ih ?_ ?_ ?_ (fun _ => hwait)
        · rw [hs, List.length_cons] at hn
          exact Nat.lt_of_succ_lt_succ hn
        · exact le_trans hnow (Nat.le_add_right _ _)
        · simpa [pending, hnil.1, hnil.2] using hrest

/-- **A byte that comes soon enough is read.** -/
theorem timedRead_eq {l : Link} {c : UInt8} {rest : List UInt8} (hp : l.pending = c :: rest)
    (hw : l.waitAt 0 < l.timeout) : ∃ l', l.timedRead = (some c, l') ∧ l.Took 1 l' := by
  have hne : l.timedRead.1 ≠ none := by
    refine timedReadFrom_ne_none (Nat.lt_succ_self _) (le_refl _) (by simp [hp]) (fun hrx => ?_)
    rw [waitAt_zero_of_rx_nil hrx] at hw
    rwa [Nat.sub_self]
  obtain ⟨hnone, -⟩ | ⟨d, hd, hhead, htook⟩ := l.timedRead_takes
  · exact absurd hnone hne
  · obtain rfl : c = d := by simpa [hp] using hhead
    exact ⟨l.timedRead.2, Prod.ext hd rfl, htook⟩

/-! ### Taking several -/

/-- **`readBytes` gets what comes soon enough.** -/
theorem readBytes_eq {n : ℕ} {l : Link} (hn : n ≤ l.pending.length)
    (hw : ∀ i < n, l.waitAt i < l.timeout) :
    ∃ l', l.readBytes n = (l.pending.take n, l') ∧ l.Took n l' := by
  induction n generalizing l with
  | zero => exact ⟨l, rfl, Took.refl l⟩
  | succ n ih =>
    obtain ⟨c, rest, hp⟩ : ∃ c rest, l.pending = c :: rest :=
      List.exists_cons_of_length_pos (by omega)
    obtain ⟨l₁, hread, htook⟩ := timedRead_eq hp (hw 0 (Nat.succ_pos n))
    have hp₁ : l₁.pending = rest := by rw [htook.pending, hp]; rfl
    obtain ⟨l', hl', htook'⟩ := @ih l₁ (by rw [hp₁]; simpa [hp] using hn) (fun i hi => by
      rw [htook.timeout]
      exact lt_of_le_of_lt (htook.waitAt i) (hw (i + 1) (by omega)))
    refine ⟨l', ?_, by simpa [Nat.add_comm] using htook.trans htook'⟩
    rw [readBytes, hread]
    dsimp only
    rw [hl', hp₁, hp]
    rfl

theorem readUntilFrom_eq {t : UInt8} {line rest : List UInt8} {n : ℕ} {l : Link}
    (hn : line.length < n) (hp : l.pending = line ++ t :: rest) (ht : t ∉ line)
    (hw : ∀ i ≤ line.length, l.waitAt i < l.timeout) :
    ∃ l', readUntilFrom t n l = (line, l') ∧ l.Took (line.length + 1) l' := by
  induction line generalizing n l with
  | nil =>
    obtain ⟨n, rfl⟩ : ∃ m, n = m + 1 := ⟨n - 1, by simp at hn; omega⟩
    obtain ⟨l₁, hread, htook⟩ := timedRead_eq hp (hw 0 (le_refl _))
    exact ⟨l₁, by rw [readUntilFrom, hread]; simp, htook⟩
  | cons c line ih =>
    obtain ⟨n, rfl⟩ : ∃ m, n = m + 1 := ⟨n - 1, by simp at hn; omega⟩
    obtain ⟨l₁, hread, htook⟩ := timedRead_eq hp (hw 0 (Nat.zero_le _))
    obtain ⟨hct, ht⟩ : t ≠ c ∧ t ∉ line := by simpa using ht
    have hp₁ : l₁.pending = line ++ t :: rest := by rw [htook.pending, hp]; rfl
    obtain ⟨l', hl', htook'⟩ := @ih n l₁ (by simpa using hn) hp₁ ht (fun i hi => by
      rw [htook.timeout]
      exact lt_of_le_of_lt (htook.waitAt i) (hw (i + 1) (by simpa using hi)))
    refine ⟨l', ?_, ?_⟩
    · rw [readUntilFrom, hread]
      dsimp only
      rw [if_neg (Ne.symm hct), hl']
    · simpa [Nat.add_comm] using htook.trans htook'

/-- **`readStringUntil` gets a line that comes soon enough**, and takes its
terminator. -/
theorem readStringUntil_eq {t : UInt8} {line rest : List UInt8} {l : Link}
    (hp : l.pending = line ++ t :: rest) (ht : t ∉ line)
    (hw : ∀ i ≤ line.length, l.waitAt i < l.timeout) :
    ∃ l', l.readStringUntil t = (line, l') ∧ l.Took (line.length + 1) l' :=
  readUntilFrom_eq (by rw [hp, List.length_append, List.length_cons]; omega) hp ht hw

theorem readUntilFrom_prefix {t : UInt8} {line rest : List UInt8} {m n : ℕ} {l : Link}
    (hn : line.length < n) (hp : l.pending = line ++ t :: rest) (ht : t ∉ line)
    (hm : m ≤ line.length) (hw : ∀ i < m, l.waitAt i < l.timeout) :
    ∃ j l', readUntilFrom t n l = (line.take j, l') ∧ m ≤ j ∧ j ≤ line.length := by
  induction line generalizing m n l with
  | nil =>
    obtain ⟨n, rfl⟩ : ∃ k, n = k + 1 := ⟨n - 1, by simp at hn; omega⟩
    refine ⟨0, (readUntilFrom t (n + 1) l).2, Prod.ext ?_ rfl, hm, le_refl _⟩
    obtain ⟨hnone, -⟩ | ⟨c, hc, hhead, -⟩ := l.timedRead_takes
    · rw [readUntilFrom, show l.timedRead = (none, l.timedRead.2) from Prod.ext hnone rfl]
      rfl
    · obtain rfl : t = c := by simpa [hp] using hhead
      rw [readUntilFrom, show l.timedRead = (some t, l.timedRead.2) from Prod.ext hc rfl]
      dsimp only
      rw [if_pos rfl]
      rfl
  | cons c line ih =>
    obtain ⟨n, rfl⟩ : ∃ k, n = k + 1 := ⟨n - 1, by simp at hn; omega⟩
    obtain ⟨hct, ht⟩ : t ≠ c ∧ t ∉ line := by simpa using ht
    obtain ⟨hnone, -⟩ | ⟨d, hd, hhead, htook⟩ := l.timedRead_takes
    · -- a byte that is late is none of the first ones
      have hm0 : m = 0 := by
        by_contra hne
        obtain ⟨l', hl', -⟩ := timedRead_eq hp (hw 0 (by omega))
        rw [hl'] at hnone
        cases hnone
      refine ⟨0, l.timedRead.2, ?_, Nat.le_of_eq hm0, Nat.zero_le _⟩
      rw [readUntilFrom, show l.timedRead = (none, l.timedRead.2) from Prod.ext hnone rfl]
      rfl
    · obtain rfl : c = d := by simpa [hp] using hhead
      have hp₁ : l.timedRead.2.pending = line ++ t :: rest := by rw [htook.pending, hp]; rfl
      obtain ⟨j, l', hl', hmj, hj⟩ := @ih (m - 1) n l.timedRead.2 (by simpa using hn) hp₁ ht
        (by rw [List.length_cons] at hm; omega) (fun i hi => by
          rw [htook.timeout]
          exact lt_of_le_of_lt (htook.waitAt i) (hw (i + 1) (by omega)))
      refine ⟨j + 1, l', ?_, by omega, Nat.succ_le_succ hj⟩
      rw [readUntilFrom, show l.timedRead = (some c, l.timedRead.2) from Prod.ext hd rfl]
      dsimp only
      rw [if_neg (Ne.symm hct), hl']
      rfl

/-- **`readStringUntil` gets the start of a line** that comes soon enough, at least. -/
theorem readStringUntil_prefix {t : UInt8} {line rest : List UInt8} {m : ℕ} {l : Link}
    (hp : l.pending = line ++ t :: rest) (ht : t ∉ line) (hm : m ≤ line.length)
    (hw : ∀ i < m, l.waitAt i < l.timeout) :
    ∃ j l', l.readStringUntil t = (line.take j, l') ∧ m ≤ j ∧ j ≤ line.length :=
  readUntilFrom_prefix (by rw [hp, List.length_append, List.length_cons]; omega) hp ht hm hw

/-! ## More to come -/

/-- The schedule goes on. -/
def extend (l : Link) (sched : List Slice) : Link := { l with sched := l.sched ++ sched }

theorem extend_extend (l : Link) (s t : List Slice) :
    (l.extend s).extend t = l.extend (s ++ t) := by
  simp [extend]

theorem extend_pending (l : Link) (sched : List Slice) :
    (l.extend sched).pending = l.pending ++ sched.flatMap Slice.bytes := by
  simp [extend, pending]

/-- Only the first byte waits for what went before. -/
theorem waitsFrom_getD_succ (a b : ℕ) (sched : List Slice) (i : ℕ) :
    (waitsFrom a sched).getD (i + 1) 0 = (waitsFrom b sched).getD (i + 1) 0 := by
  induction sched generalizing a b with
  | nil => rfl
  | cons s rest ih =>
    unfold waitsFrom
    split
    · exact ih _ _
    · rfl

/-- Slices that bring nothing only delay the next byte. -/
theorem waitsFrom_silent {e : List Slice} (h : e.flatMap Slice.bytes = []) (a : ℕ)
    (sched : List Slice) :
    ∃ b, waitsFrom a (e ++ sched) = waitsFrom b sched := by
  induction e generalizing a with
  | nil => exact ⟨a, rfl⟩
  | cons s rest ih =>
    rw [List.flatMap_cons, List.append_eq_nil_iff] at h
    obtain ⟨b, hb⟩ := ih h.2 (a + s.ms)
    refine ⟨b, ?_⟩
    rw [List.cons_append, waitsFrom, h.1]
    exact hb

/-- **The waits on a connection with nothing pending** are those of what is
still to come, but for the first byte. -/
theorem waitAt_extend {l : Link} (h : l.pending = []) (sched : List Slice) (i : ℕ) :
    (l.extend sched).waitAt (i + 1) = (waitsFrom 0 sched).getD (i + 1) 0 := by
  obtain ⟨hrx, hsched⟩ := List.append_eq_nil_iff.mp h
  obtain ⟨b, hb⟩ := waitsFrom_silent hsched 0 sched
  unfold waitAt extend
  rw [hrx, hb]
  exact waitsFrom_getD_succ b 0 sched i

end Link
