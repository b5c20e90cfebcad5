import Esp31b.TextBlock

/-!
# A heap of blocks

Blocks have numbers, and a pointer is a number and an offset. A block that was freed keeps its
number and has no bytes any more, so an access to it has no result, as has one that leaves its
block. Two pointers may be into the same block: what is read there is what was written last.

So `strcpy` is the loop it is, byte by byte up to a NUL. Between two blocks it comes to a write
of the text (`BlockHeap.strcpy_eq`). Within one it may be behind its own NUL
(`BlockHeap.strcpy_overrun`).
-/

/-- **The blocks**; one that was freed has no bytes. -/
abbrev BlockHeap := List (Option (List UInt8))

namespace BlockHeap

/-- The bytes of a block. -/
def block (h : BlockHeap) (p : ℕ) : Option (List UInt8) := h[p]?.join

/-- A byte of a block. -/
def load (h : BlockHeap) (p i : ℕ) : Option UInt8 := (h.block p).bind fun b => b[i]?

/-- It becomes another one. -/
def store (h : BlockHeap) (p i : ℕ) (c : UInt8) : Option BlockHeap := do
  let b ← h.block p
  let b ← Block.set b i c
  return h.set p (some b)

/-- A new block. -/
def alloc (h : BlockHeap) (b : List UInt8) : BlockHeap := h ++ [some b]

/-- A block is given back. -/
def free (h : BlockHeap) (p : ℕ) : Option BlockHeap := do
  let _ ← h.block p
  return h.set p none

/-- `memcpy` of the first bytes of a block to the start of another one. -/
def memcpy (h : BlockHeap) (dst src n : ℕ) : Option BlockHeap := do
  let d ← (h.block src).bind fun b => Block.read b 0 n
  let b ← (h.block dst).bind fun b => Block.write b 0 d
  return h.set dst (some b)

/-- **`strcpy`**, so many turns of it: it is done when the byte that was copied is a NUL. -/
def strcpy : ℕ → BlockHeap → ℕ → ℕ → ℕ → ℕ → Option BlockHeap
  | 0, _, _, _, _, _ => none
  | turns + 1, h, dst, i, src, j => do
    let c ← h.load src j
    let h ← h.store dst i c
    if c = 0 then return h else strcpy turns h dst (i + 1) src (j + 1)

variable {h h' : BlockHeap} {p q i j n turns : ℕ} {b b' e t : List UInt8} {c : UInt8}
  {x : Option (List UInt8)}

/-! ## One block at a time -/

theorem lt_of_block (hb : h.block p = some b) : p < h.length := by
  unfold block at hb
  by_contra hle
  rw [List.getElem?_eq_none (Nat.le_of_not_lt hle)] at hb
  cases hb

theorem block_set_self (hp : p < h.length) : block (h.set p x) p = x := by
  unfold block
  rw [List.getElem?_set_self hp]
  rfl

theorem block_set_of_ne (hne : p ≠ q) : block (h.set p x) q = h.block q := by
  unfold block
  rw [List.getElem?_set_ne hne]

theorem block_alloc_self : (h.alloc b).block h.length = some b := by
  unfold block alloc
  rw [List.getElem?_append_right le_rfl, Nat.sub_self]
  rfl

/-- The blocks there were. -/
theorem block_alloc (hb : h.block p = some e) : (h.alloc b).block p = some e := by
  unfold block alloc
  rw [List.getElem?_append_left (lt_of_block hb)]
  exact hb

theorem load_eq (hb : h.block p = some b) : h.load p i = b[i]? := by
  unfold load
  rw [hb, Option.bind_some]

theorem store_eq (hb : h.block p = some b) (hset : Block.set b i c = some b') :
    h.store p i c = some (h.set p (some b')) := by
  unfold store
  rw [hb, Option.bind_eq_bind, Option.bind_some, hset]
  rfl

theorem store_eq_none (hb : h.block p = some b) (hi : b.length ≤ i) : h.store p i c = none := by
  unfold store Block.set
  rw [hb, Option.bind_eq_bind, Option.bind_some, if_neg (Nat.not_lt.mpr hi)]
  rfl

theorem free_eq (hb : h.block p = some b) : h.free p = some (h.set p none) := by
  unfold free
  rw [hb]
  rfl

/-- **Between two blocks** the first bytes are written. -/
theorem memcpy_eq (hsrc : h.block q = some e) (hdst : h.block p = some b)
    (hread : Block.read e 0 n = some t) (hwrite : Block.write b 0 t = some b') :
    h.memcpy p q n = some (h.set p (some b')) := by
  unfold memcpy
  rw [hsrc, Option.bind_some, hread, Option.bind_eq_bind, Option.bind_some,
    hdst, Option.bind_some, hwrite]
  rfl

/-! ## `strcpy` -/

/-- **Between two blocks** the text is written, with its NUL. -/
theorem strcpy_eq (hdst : h.block p = some b) (hsrc : h.block q = some e) (hne : p ≠ q)
    (ht : Block.text e j = some t) (hwrite : Block.write b i (t ++ [0]) = some b')
    (hturns : t.length < turns) :
    h.strcpy turns p i q j = some (h.set p (some b')) := by
  have hp := lt_of_block hdst
  induction t generalizing h b i j turns with
  | nil =>
    obtain ⟨turns, rfl⟩ : ∃ n, turns = n + 1 :=
      ⟨turns - 1, (Nat.succ_pred_eq_of_pos hturns).symm⟩
    have hget := Block.getElem?_text ht (le_refl 0)
    rw [if_pos List.length_nil.symm, Nat.add_zero] at hget
    rw [List.nil_append, Block.write_singleton] at hwrite
    rw [strcpy, load_eq hsrc, hget, Option.bind_eq_bind, Option.bind_some, store_eq hdst hwrite]
    rfl
  | cons c t ih =>
    rw [List.length_cons] at hturns
    obtain ⟨turns, rfl⟩ : ∃ n, turns = n + 1 := ⟨turns - 1, by omega⟩
    have hget := Block.getElem?_text ht (Nat.zero_le (c :: t).length)
    rw [if_neg (by rw [List.length_cons]; omega), Nat.add_zero] at hget
    have hc : c ≠ 0 := (List.ne_of_not_mem_cons (Block.text_eq_some_iff.mp ht).1).symm
    have hnext : Block.text e (j + 1) = some t := by
      obtain ⟨h0, rest, heq⟩ := Block.text_eq_some_iff.mp ht
      refine Block.text_eq_some_iff.mpr ⟨List.not_mem_of_not_mem_cons h0, rest, ?_⟩
      rw [← List.drop_drop, heq]
      rfl
    rw [List.cons_append, Block.write_cons] at hwrite
    obtain ⟨b₁, hset, hrest⟩ := Option.bind_eq_some_iff.mp hwrite
    have hmore := ih (h := h.set p (some b₁)) (block_set_self hp)
      ((block_set_of_ne hne).trans hsrc) hnext hrest (Nat.lt_of_succ_lt_succ hturns)
      (by rw [List.length_set]; exact hp)
    rw [List.set_set] at hmore
    rw [strcpy, load_eq hsrc, hget, List.getElem?_cons_zero, Option.bind_eq_bind,
      Option.bind_some, store_eq hdst hset, Option.bind_eq_bind, Option.bind_some, if_neg hc]
    exact hmore

/-- **Behind itself it does not end**: where only other bytes are in front of what is written,
each byte that is copied is one of them, and the first one that does not fit is not copied. -/
theorem strcpy_overrun (hb : h.block p = some b) (hpos : 0 < n)
    (hfront : ∀ i < j + n, b[i]? ≠ some 0) : h.strcpy turns p (j + n) p j = none := by
  have hp := lt_of_block hb
  induction turns generalizing h b j with
  | zero => rfl
  | succ turns ih =>
    rw [strcpy, load_eq hb]
    cases hget : b[j]? with
    | none => rfl
    | some c =>
      have hc : c ≠ 0 := fun h0 => hfront j (by omega) (by rw [hget, h0])
      rw [Option.bind_eq_bind, Option.bind_some]
      by_cases hroom : j + n < b.length
      · have hset : Block.set b (j + n) c = some (b.set (j + n) c) := if_pos hroom
        rw [store_eq hb hset, Option.bind_eq_bind, Option.bind_some, if_neg hc,
          Nat.add_right_comm]
        refine ih (block_set_self hp) (fun i hi => ?_) (by rw [List.length_set]; exact hp)
        by_cases hlast : j + n = i
        · rw [← hlast, List.getElem?_set_self hroom]
          exact fun h0 => hc (Option.some.inj h0)
        · rw [List.getElem?_set_ne hlast]
          exact hfront i (by omega)
      · rw [store_eq_none hb (Nat.le_of_not_lt hroom)]
        rfl

/-- A block that was freed is not read. -/
theorem strcpy_freed (hsrc : h.block q = none) : h.strcpy turns p i q j = none := by
  cases turns with
  | zero => rfl
  | succ turns =>
    rw [strcpy, load, hsrc]
    rfl

end BlockHeap
