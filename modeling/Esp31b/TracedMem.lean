import Esp31b.ByteMem

/-!
# A memory that remembers what was touched

Whether a program stays inside a block is a question about the addresses it
touches and not about what it finds there: an access outside finds some byte,
and the program goes on with it. So the memory is a total one, and every read
and write is noted with its address.

`TracedMem.Inside n` says that nothing at `n` or behind was touched so far.
Each operation has one lemma about it, which is an equivalence, so that the
accesses of a program can be added up from either side.
-/

/-- A memory and the addresses touched. -/
structure TracedMem where
  mem : ByteMem
  touched : List ℕ

namespace TracedMem

/-- A byte is read. -/
def read (b : TracedMem) (p : ℕ) : UInt8 × TracedMem :=
  (b.mem p, { b with touched := b.touched ++ [p] })

/-- The bytes of a run are read. -/
def readRun (b : TracedMem) (p n : ℕ) : List UInt8 × TracedMem :=
  (b.mem.slice p n, { b with touched := b.touched ++ (List.range n).map (p + ·) })

/-- The bytes of a run are written. -/
def writeRun (b : TracedMem) (p : ℕ) (d : List UInt8) : TracedMem :=
  ⟨b.mem.store p d, b.touched ++ (List.range d.length).map (p + ·)⟩

/-- **Nothing at `n` or behind was touched.** -/
def Inside (n : ℕ) (b : TracedMem) : Prop := ∀ p ∈ b.touched, p < n

instance (n : ℕ) (b : TracedMem) : Decidable (b.Inside n) :=
  inferInstanceAs (Decidable (∀ p ∈ b.touched, _))

variable {b : TracedMem} {n p k : ℕ} {d : List UInt8}

@[simp] theorem read_fst : (b.read p).1 = b.mem p := rfl

@[simp] theorem read_mem : (b.read p).2.mem = b.mem := rfl

@[simp] theorem readRun_fst : (b.readRun p k).1 = b.mem.slice p k := rfl

@[simp] theorem readRun_mem : (b.readRun p k).2.mem = b.mem := rfl

theorem inside_append {ps : List ℕ} {mem : ByteMem} :
    Inside n ⟨mem, b.touched ++ ps⟩ ↔ Inside n b ∧ ∀ p ∈ ps, p < n := List.forall_mem_append

@[simp] theorem inside_read : Inside n (b.read p).2 ↔ Inside n b ∧ p < n :=
  inside_append.trans (and_congr_right fun _ => List.forall_mem_singleton)

/-- A run is inside if its last byte is. -/
theorem forall_run_lt : (∀ q ∈ (List.range k).map (p + ·), q < n) ↔ (k = 0 ∨ p + k ≤ n) := by
  constructor
  · intro h
    rcases Nat.eq_zero_or_pos k with hk | hk
    · exact Or.inl hk
    · have hlast :=
        h (p + (k - 1)) (List.mem_map.mpr ⟨k - 1, List.mem_range.mpr (by omega), rfl⟩)
      omega
  · intro h q hq
    obtain ⟨i, hi, rfl⟩ := List.mem_map.mp hq
    have hlt := List.mem_range.mp hi
    omega

@[simp] theorem inside_readRun :
    Inside n (b.readRun p k).2 ↔ Inside n b ∧ (k = 0 ∨ p + k ≤ n) :=
  inside_append.trans (and_congr_right fun _ => forall_run_lt)

@[simp] theorem inside_writeRun :
    Inside n (b.writeRun p d) ↔ Inside n b ∧ (d.length = 0 ∨ p + d.length ≤ n) :=
  inside_append.trans (and_congr_right fun _ => forall_run_lt)

end TracedMem
