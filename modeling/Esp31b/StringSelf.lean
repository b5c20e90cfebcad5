import Esp31b.BlockHeap
import Esp31b.StringEditing

/-!
# Appending a `String` to itself

`concat` is given a pointer into the other string's block, makes room, and copies up to a NUL.
All of that is written over a heap here, where the two strings may have one block.

Where they have two, it is the operation on objects (`HeapString.concat_refines`). Where they
have one, there are two ways to go wrong: if there is room, the copy overwrites the NUL it looks
for; if there is none, the block that it is copied from is freed before. So a string can be
appended to itself only if there is nothing to append (`HeapString.doubles_iff`).
-/

/-- The fields of a `String` whose buffer is a block of the heap. -/
structure HeapString where
  buffer : Option ℕ
  capacity : ℕ
  len : ℕ
  deriving DecidableEq, Repr

namespace HeapString

open BlockHeap

/-! ## The functions -/

/-- `changeBuffer`. -/
def changeBuffer (h : BlockHeap) (s : HeapString) (maxStrLen : ℕ) (malloc : Bool) :
    Option (Bool × BlockHeap × HeapString) :=
  let newSize := (maxStrLen + 16) % 2 ^ 32 / 16 * 16
  if malloc then do
    let newbuffer := h.length
    let h := h.alloc (List.replicate newSize 0)
    let capacity := (newSize + 2 ^ 32 - 1) % 2 ^ 32
    match s.buffer with
    | none => if s.len = 0 then some (true, h, ⟨some newbuffer, capacity, s.len⟩) else none
    | some buffer =>
      let h ← h.memcpy newbuffer buffer s.len
      let h ← h.free buffer
      return (true, h, ⟨some newbuffer, capacity, s.len⟩)
  else some (false, h, { s with buffer := none })

/-- `reserve`. -/
def reserve (h : BlockHeap) (s : HeapString) (size : ℕ) (malloc : Bool) :
    Option (Bool × BlockHeap × HeapString) :=
  if s.buffer.isSome ∧ s.capacity ≥ size then some (true, h, s)
  else do
    let (changed, h, s) ← s.changeBuffer h size malloc
    if changed then
      if s.len = 0 then
        let buffer ← s.buffer
        let h ← h.store buffer 0 0
        return (true, h, s)
      else return (true, h, s)
    else return (false, h, s)

/-- `concat(const char *, unsigned int)`, of a block. -/
def concatFrom (turns : ℕ) (h : BlockHeap) (s : HeapString) (cstr : Option ℕ) (length : ℕ)
    (malloc : Bool) : Option (Bool × BlockHeap × HeapString) :=
  let newlen := (s.len + length) % 2 ^ 32
  match cstr with
  | none => some (false, h, s)
  | some cstr =>
    if length = 0 then some (true, h, s)
    else do
      let (reserved, h, s) ← s.reserve h newlen malloc
      if reserved then
        let buffer ← s.buffer
        let h ← h.strcpy turns buffer s.len cstr 0
        return (true, h, { s with len := newlen })
      else return (false, h, s)

/-- `concat(const String &)`. -/
def concat (turns : ℕ) (h : BlockHeap) (s rhs : HeapString) (malloc : Bool) :
    Option (Bool × BlockHeap × HeapString) :=
  s.concatFrom turns h rhs.buffer rhs.len malloc

/-- `+=`. -/
def addAssign (turns : ℕ) (h : BlockHeap) (s rhs : HeapString) (malloc : Bool) :
    Option (BlockHeap × HeapString) := (s.concat turns h rhs malloc).map Prod.snd

/-! ## The object on the heap -/

/-- The object with the bytes of its block, if that is there. -/
def view (h : BlockHeap) (s : HeapString) : Option StringObject :=
  match s.buffer with
  | none => some ⟨none, s.capacity, s.len⟩
  | some buffer => (h.block buffer).map fun b => ⟨some b, s.capacity, s.len⟩

/-- **A string of this text**, in a block that is there. -/
def HasText (h : BlockHeap) (s : HeapString) (T : List UInt8) : Prop :=
  ∃ o, s.view h = some o ∧ o.HasText T

/-- **`concat` of the string to itself** returns, and leaves the text twice. -/
def Doubles (h : BlockHeap) (s : HeapString) (T : List UInt8) : Prop :=
  ∃ turns r h' s', s.concat turns h s true = some (r, h', s') ∧ s'.HasText h' (T ++ T)

/-- **So does `+=`.** -/
def DoublesAssign (h : BlockHeap) (s : HeapString) (T : List UInt8) : Prop :=
  ∃ turns h' s', s.addAssign turns h s true = some (h', s') ∧ s'.HasText h' (T ++ T)

variable {h h' : BlockHeap} {s rhs s' : HeapString} {o o' o₂ : StringObject} {T b : List UInt8}
  {p size turns length : ℕ} {r malloc : Bool}

/-! ## Two strings -/

theorem view_some (hbuffer : s.buffer = some p) (hview : s.view h = some o) :
    ∃ b, h.block p = some b ∧ o = ⟨some b, s.capacity, s.len⟩ := by
  unfold view at hview
  rw [hbuffer] at hview
  obtain ⟨b, hb, rfl⟩ := Option.map_eq_some_iff.mp hview
  exact ⟨b, hb, rfl⟩

theorem view_none (hbuffer : s.buffer = none) (hview : s.view h = some o) :
    o = ⟨none, s.capacity, s.len⟩ := by
  unfold view at hview
  rw [hbuffer] at hview
  exact (Option.some.inj hview).symm

theorem view_eq (hbuffer : s.buffer = some p) (hb : h.block p = some b) :
    s.view h = some ⟨some b, s.capacity, s.len⟩ := by
  unfold view
  rw [hbuffer]
  dsimp only
  rw [hb]
  rfl

theorem view_fields (hview : s.view h = some o) :
    o.buffer.isSome = s.buffer.isSome ∧ o.capacity = s.capacity ∧ o.len = s.len := by
  cases hbuffer : s.buffer with
  | none =>
    rw [view_none hbuffer hview]
    exact ⟨rfl, rfl, rfl⟩
  | some p =>
    obtain ⟨b, -, rfl⟩ := view_some hbuffer hview
    exact ⟨rfl, rfl, rfl⟩

theorem view_with_len (hview : s.view h = some o) (n : ℕ) :
    view h { s with len := n } = some { o with len := n } := by
  cases hbuffer : s.buffer with
  | none =>
    rw [view_none hbuffer hview]
    rfl
  | some p =>
    obtain ⟨b, hb, rfl⟩ := view_some hbuffer hview
    exact view_eq rfl hb

/-- **What an operation on one string does to the heap**: the object becomes another one, and
the blocks of all others stay as they are, and apart from it. -/
structure Leaves (h : BlockHeap) (s : HeapString) (h' : BlockHeap) (s' : HeapString)
    (o' : StringObject) : Prop where
  view : s'.view h' = some o'
  block : ∀ q b, h.block q = some b → s.buffer ≠ some q → h'.block q = some b
  apart : ∀ q b, h.block q = some b → s.buffer ≠ some q → s'.buffer ≠ some q

theorem Leaves.refl (hview : s.view h = some o) : Leaves h s h s o :=
  ⟨hview, fun _ _ hb _ => hb, fun _ _ _ hne => hne⟩

theorem Leaves.trans {h₁ h₂ : BlockHeap} {s₁ s₂ : HeapString} {o₁ : StringObject}
    (hfirst : Leaves h s h₁ s₁ o₁) (hnext : Leaves h₁ s₁ h₂ s₂ o') : Leaves h s h₂ s₂ o' where
  view := hnext.view
  block q b hb hne := hnext.block q b (hfirst.block q b hb hne) (hfirst.apart q b hb hne)
  apart q b hb hne := hnext.apart q b (hfirst.block q b hb hne) (hfirst.apart q b hb hne)

/-- Its block is written. -/
theorem leaves_set (hbuffer : s.buffer = some p) (hb : h.block p = some b) (b' : List UInt8) :
    Leaves h s (h.set p (some b')) s ⟨some b', s.capacity, s.len⟩ where
  view := view_eq hbuffer (block_set_self (lt_of_block hb))
  block q e he hne := by
    have hpq : p ≠ q := fun heq => hne (hbuffer.trans (congrArg some heq))
    rw [block_set_of_ne hpq]
    exact he
  apart _ _ _ hne := hne

/-- The first bytes of an object with a block. -/
theorem load_front (b : List UInt8) (k m n : ℕ) :
    StringObject.load ⟨some b, k, m⟩ 0 n = Block.read b 0 n := by
  unfold StringObject.load
  split
  · rename_i hn
    rw [hn, Block.read_eq (Nat.zero_le _)]
    rfl
  · rfl

/-- **`changeBuffer` on the heap.** -/
theorem changeBuffer_refines (hview : s.view h = some o)
    (hchange : o.changeBuffer size malloc = some (r, o')) :
    ∃ h' s', s.changeBuffer h size malloc = some (r, h', s') ∧ Leaves h s h' s' o' := by
  unfold StringObject.changeBuffer at hchange
  dsimp only at hchange
  unfold changeBuffer
  dsimp only
  generalize (size + 16) % 2 ^ 32 / 16 * 16 = newSize at hchange ⊢
  cases malloc with
  | false =>
    rw [if_neg Bool.false_ne_true] at hchange ⊢
    obtain ⟨rfl, rfl⟩ := Prod.mk.inj (Option.some.inj hchange)
    refine ⟨h, { s with buffer := none }, rfl, ?_, fun _ _ hb _ => hb, fun q _ _ _ => ?_⟩
    · cases hbuffer : s.buffer with
      | none =>
        rw [view_none hbuffer hview]
        rfl
      | some p =>
        obtain ⟨b, -, rfl⟩ := view_some hbuffer hview
        rfl
    · exact (Option.some_ne_none q).symm
  | true =>
    rw [if_pos rfl] at hchange ⊢
    obtain ⟨old, hold, hchange⟩ := Option.bind_eq_some_iff.mp hchange
    obtain ⟨newbuffer, hwrite, hchange⟩ := Option.bind_eq_some_iff.mp hchange
    obtain ⟨rfl, rfl⟩ := Prod.mk.inj (Option.some.inj hchange)
    have hnew : (h.alloc (List.replicate newSize 0)).block h.length =
        some (List.replicate newSize 0) := block_alloc_self
    have hapart : ∀ q b, h.block q = some b → some h.length ≠ some q := by
      intro q b hb heq
      exact absurd (lt_of_block hb) (Option.some.inj heq ▸ Nat.lt_irrefl _)
    cases hbuffer : s.buffer with
    | none =>
      obtain rfl := view_none hbuffer hview
      have hlen : s.len = 0 := by
        by_contra hne
        rw [StringObject.load, if_neg hne] at hold
        cases hold
      have hempty : old = [] := by
        rw [StringObject.load, if_pos hlen] at hold
        exact (Option.some.inj hold).symm
      have hsame : newbuffer = List.replicate newSize 0 := by
        rw [hempty, Block.write_eq (Nat.zero_le _)] at hwrite
        exact (Option.some.inj hwrite).symm
      dsimp only
      rw [if_pos hlen, hsame]
      refine ⟨_, _, rfl, view_eq rfl hnew, fun q b hb _ => block_alloc hb, fun q b hb _ => ?_⟩
      exact hapart q b hb
    | some p =>
      obtain ⟨b, hb, rfl⟩ := view_some hbuffer hview
      rw [load_front] at hold
      have hp := lt_of_block hb
      have hcopy := memcpy_eq (block_alloc hb) hnew hold hwrite
      have hne : h.length ≠ p := Nat.ne_of_gt hp
      have hkept :
          block ((h.alloc (List.replicate newSize 0)).set h.length (some newbuffer)) p =
          some b := (block_set_of_ne hne).trans (block_alloc hb)
      dsimp only
      rw [hcopy, Option.bind_eq_bind, Option.bind_some, free_eq hkept, Option.bind_some]
      refine ⟨_, _, rfl, view_eq rfl ?_, fun q b' hb' hq => ?_, fun q b' hb' _ => ?_⟩
      · rw [block_set_of_ne hne.symm, block_set_self (lt_of_block hnew)]
      · have hpq : p ≠ q := fun heq => hq (hbuffer.trans (congrArg some heq))
        rw [block_set_of_ne hpq, block_set_of_ne (Nat.ne_of_gt (lt_of_block hb')),
          block_alloc hb']
      · exact hapart q b' hb'

/-- **The block that bytes are stored in.** -/
theorem exists_write_of_store {i : ℕ} {M : List UInt8} (hview : s.view h = some o)
    (hstore : o.store i M = some o') :
    ∃ p b b', s.buffer = some p ∧ h.block p = some b ∧ Block.write b i M = some b' ∧
      o' = ⟨some b', s.capacity, s.len⟩ := by
  unfold StringObject.store at hstore
  obtain ⟨b, hb, hstore⟩ := Option.bind_eq_some_iff.mp hstore
  obtain ⟨b', hwrite, hstore⟩ := Option.bind_eq_some_iff.mp hstore
  cases hbuffer : s.buffer with
  | none =>
    rw [view_none hbuffer hview] at hb
    cases hb
  | some p =>
    obtain ⟨b, hblock, rfl⟩ := view_some hbuffer hview
    cases hb
    cases hstore
    exact ⟨p, b, b', rfl, hblock, hwrite, rfl⟩

/-- A byte is stored. -/
theorem store_refines {i : ℕ} {c : UInt8} (hview : s.view h = some o)
    (hstore : o.store i [c] = some o') :
    ∃ p h', s.buffer = some p ∧ h.store p i c = some h' ∧ Leaves h s h' s o' := by
  obtain ⟨p, b, b', hbuffer, hblock, hwrite, rfl⟩ := exists_write_of_store hview hstore
  rw [Block.write_singleton] at hwrite
  exact ⟨p, _, hbuffer, store_eq hblock hwrite, leaves_set hbuffer hblock b'⟩

/-- A text is copied from another block. -/
theorem strcpy_refines {i j q : ℕ} {e t : List UInt8} (hview : s.view h = some o)
    (hsrc : h.block q = some e) (hne : s.buffer ≠ some q) (ht : Block.text e j = some t)
    (hturns : t.length < turns) (hstore : o.store i (t ++ [0]) = some o') :
    ∃ p h', s.buffer = some p ∧ h.strcpy turns p i q j = some h' ∧ Leaves h s h' s o' := by
  obtain ⟨p, b, b', hbuffer, hblock, hwrite, rfl⟩ := exists_write_of_store hview hstore
  have hpq : p ≠ q := fun heq => hne (hbuffer.trans (congrArg some heq))
  exact ⟨p, _, hbuffer, strcpy_eq hblock hsrc hpq ht hwrite hturns,
    leaves_set hbuffer hblock b'⟩

/-- **`reserve` on the heap.** -/
theorem reserve_refines (hview : s.view h = some o)
    (hreserve : o.reserve size malloc = some (r, o')) :
    ∃ h' s', s.reserve h size malloc = some (r, h', s') ∧ Leaves h s h' s' o' := by
  obtain ⟨hsome, hcapacity, -⟩ := view_fields hview
  unfold StringObject.reserve at hreserve
  unfold reserve
  rw [hsome, hcapacity] at hreserve
  split at hreserve
  · rename_i hroom
    obtain ⟨rfl, rfl⟩ := Prod.mk.inj (Option.some.inj hreserve)
    rw [if_pos hroom]
    exact ⟨h, s, rfl, Leaves.refl hview⟩
  · rename_i hroom
    obtain ⟨⟨changed, o₁⟩, hchange, hreserve⟩ := Option.bind_eq_some_iff.mp hreserve
    obtain ⟨h₁, s₁, hchange₁, hleaves⟩ := changeBuffer_refines hview hchange
    obtain ⟨-, -, hlen⟩ := view_fields hleaves.view
    rw [if_neg hroom, hchange₁, Option.bind_eq_bind, Option.bind_some]
    dsimp only at hreserve ⊢
    cases changed with
    | false =>
      obtain ⟨rfl, rfl⟩ := Prod.mk.inj (Option.some.inj hreserve)
      exact ⟨h₁, s₁, rfl, hleaves⟩
    | true =>
      rw [if_pos rfl] at hreserve ⊢
      rw [hlen] at hreserve
      split at hreserve
      · rename_i hempty
        obtain ⟨o₂, hstore, hreserve⟩ := Option.bind_eq_some_iff.mp hreserve
        obtain ⟨rfl, rfl⟩ := Prod.mk.inj (Option.some.inj hreserve)
        obtain ⟨p, h₂, hbuffer, hstore₂, hleaves₂⟩ := store_refines hleaves.view hstore
        rw [if_pos hempty, hbuffer, Option.bind_eq_bind, Option.bind_some, hstore₂]
        exact ⟨h₂, s₁, rfl, hleaves.trans hleaves₂⟩
      · rename_i hempty
        obtain ⟨rfl, rfl⟩ := Prod.mk.inj (Option.some.inj hreserve)
        rw [if_neg hempty]
        exact ⟨h₁, s₁, rfl, hleaves⟩

/-- **`concat` of a string with another block** is the operation on objects, and the other
string stays as it is. -/
theorem concat_refines (hview : s.view h = some o) (hrhs : rhs.view h = some o₂)
    (hne : s.buffer = none ∨ s.buffer ≠ rhs.buffer) (hturns : o₂.contents.length < turns)
    (hconcat : o.concat o₂ malloc = some (r, o')) :
    ∃ h' s', s.concat turns h rhs malloc = some (r, h', s') ∧ s'.view h' = some o' ∧
      rhs.view h' = some o₂ := by
  obtain ⟨-, -, hlen₂⟩ := view_fields hrhs
  obtain ⟨-, -, hlen⟩ := view_fields hview
  obtain ⟨cstr, hcptr, hconcat⟩ := Option.bind_eq_some_iff.mp hconcat
  unfold concat concatFrom
  cases hbuffer : rhs.buffer with
  | none =>
    obtain rfl := view_none hbuffer hrhs
    cases hcptr
    obtain ⟨rfl, rfl⟩ := Prod.mk.inj (Option.some.inj hconcat)
    exact ⟨h, s, rfl, hview, hrhs⟩
  | some q =>
    obtain ⟨e, he, rfl⟩ := view_some hbuffer hrhs
    obtain ⟨t, ht, rfl⟩ := Option.map_eq_some_iff.mp hcptr
    have hapart : s.buffer ≠ some q := by
      rcases hne with hnone | hne
      · rw [hnone]
        exact (Option.some_ne_none q).symm
      · rwa [hbuffer] at hne
    rw [StringObject.contents_eq rfl ht] at hturns
    unfold StringObject.concatFrom at hconcat
    dsimp only at hconcat ⊢
    rw [hlen] at hconcat
    split at hconcat
    · rename_i hzero
      obtain ⟨rfl, rfl⟩ := Prod.mk.inj (Option.some.inj hconcat)
      rw [if_pos hzero]
      exact ⟨h, s, rfl, hview, hrhs⟩
    · rename_i hzero
      obtain ⟨⟨reserved, o₁⟩, hreserve, hconcat⟩ := Option.bind_eq_some_iff.mp hconcat
      obtain ⟨h₁, s₁, hreserve₁, hleaves⟩ := reserve_refines hview hreserve
      obtain ⟨-, -, hlen₁⟩ := view_fields hleaves.view
      rw [if_neg hzero, hreserve₁, Option.bind_eq_bind, Option.bind_some]
      dsimp only at hconcat ⊢
      have hstays : ∀ {h' s' o'}, Leaves h s h' s' o' → rhs.view h' =
          some ⟨some e, rhs.capacity, rhs.len⟩ := fun hleaves =>
        view_eq hbuffer (hleaves.block q e he hapart)
      cases reserved with
      | false =>
        obtain ⟨rfl, rfl⟩ := Prod.mk.inj (Option.some.inj hconcat)
        exact ⟨h₁, s₁, rfl, hleaves.view, hstays hleaves⟩
      | true =>
        rw [if_pos rfl] at hconcat ⊢
        rw [hlen₁] at hconcat
        obtain ⟨o₃, hstore, hconcat⟩ := Option.bind_eq_some_iff.mp hconcat
        obtain ⟨rfl, rfl⟩ := Prod.mk.inj (Option.some.inj hconcat)
        obtain ⟨p, h₂, hp, hcopy, hleaves₂⟩ := strcpy_refines hleaves.view
          (hleaves.block q e he hapart) (hleaves.apart q e he hapart) ht hturns hstore
        refine ⟨h₂, _, ?_, view_with_len hleaves₂.view _, hstays (hleaves.trans hleaves₂)⟩
        rw [hp, Option.bind_eq_bind, Option.bind_some, hcopy]
        rfl

/-! ## One string -/

/-- **Its block is freed** when it gets a larger one. -/
theorem changeBuffer_frees (hbuffer : s.buffer = some p)
    (hchange : s.changeBuffer h size true = some (r, h', s')) :
    r = true ∧ h'.block p = none ∧ s'.len = s.len := by
  unfold changeBuffer at hchange
  rw [if_pos rfl, hbuffer] at hchange
  dsimp only at hchange
  obtain ⟨h₁, -, hchange⟩ := Option.bind_eq_some_iff.mp hchange
  obtain ⟨h₂, hfree, hchange⟩ := Option.bind_eq_some_iff.mp hchange
  obtain ⟨b, hb, hfree⟩ := Option.bind_eq_some_iff.mp hfree
  cases hfree
  cases hchange
  exact ⟨rfl, block_set_self (lt_of_block hb), rfl⟩

/-- **`concat` of a string to itself does not return** if there is something to append. -/
theorem concat_self (hs : s.HasText h T) (hT : T ≠ []) (turns : ℕ) :
    s.concat turns h s true = none := by
  obtain ⟨o, hview, htext⟩ := hs
  have hpos := List.length_pos_iff.mpr hT
  obtain ⟨-, -, hlen⟩ := view_fields hview
  rw [htext.len] at hlen
  obtain ⟨R, k, rfl, -⟩ := htext.exists_block hT
  cases hbuffer : s.buffer with
  | none => cases view_none hbuffer hview
  | some p =>
    obtain ⟨b, hb, heq⟩ := view_some hbuffer hview
    obtain rfl : T ++ 0 :: R = b := Option.some.inj (congrArg StringObject.buffer heq)
    unfold concat concatFrom
    rw [hbuffer]
    dsimp only
    rw [if_neg (by omega)]
    unfold reserve
    split
    · -- the copy follows behind what it reads
      rw [Option.bind_eq_bind, Option.bind_some]
      dsimp only
      have hnone : h.strcpy turns p (0 + T.length) p 0 = none := by
        refine strcpy_overrun hb hpos fun i hi => ?_
        rw [Nat.zero_add] at hi
        rw [List.getElem?_append_left hi]
        exact fun h0 => htext.zero (List.mem_of_getElem? h0)
      rw [if_pos rfl, hbuffer, ← hlen, Option.bind_eq_bind, Option.bind_some]
      rw [Nat.zero_add] at hnone
      rw [hnone]
      rfl
    · -- the block it reads is gone
      cases hchange : s.changeBuffer h ((s.len + s.len) % 2 ^ 32) true with
      | none => rfl
      | some r =>
        obtain ⟨changed, h₁, s₁⟩ := r
        obtain ⟨rfl, hfreed, hlen₁⟩ := changeBuffer_frees hbuffer hchange
        rw [Option.bind_eq_bind, Option.bind_some]
        dsimp only
        rw [if_pos rfl, if_neg (by omega), Option.bind_eq_bind]
        show (s₁.buffer.bind fun buffer => (h₁.strcpy turns buffer s₁.len p 0).bind _) = none
        cases s₁.buffer with
        | none => rfl
        | some buffer =>
          rw [Option.bind_some, strcpy_freed hfreed]
          rfl

/-- **An empty string** stays as it is. -/
theorem concat_self_nil (hs : s.HasText h []) (turns : ℕ) :
    ∃ r, s.concat turns h s true = some (r, h, s) := by
  obtain ⟨o, hview, htext⟩ := hs
  obtain ⟨-, -, hlen⟩ := view_fields hview
  rw [htext.len] at hlen
  unfold concat concatFrom
  cases s.buffer with
  | none => exact ⟨false, rfl⟩
  | some p =>
    have hzero : s.len = 0 := hlen.symm
    dsimp only
    rw [if_pos hzero]
    exact ⟨true, rfl⟩

/-- **A string can be appended to itself exactly if it is empty**, in either way. -/
theorem doubles_iff (hs : s.HasText h T) :
    (Doubles h s T ↔ s.len = 0) ∧ (DoublesAssign h s T ↔ s.len = 0) := by
  have hlen : s.len = T.length := by
    obtain ⟨o, hview, htext⟩ := hs
    rw [← (view_fields hview).2.2, htext.len]
  by_cases hT : T = []
  · have hzero : s.len = 0 := by rw [hlen, hT]; rfl
    have hnil : s.HasText h [] := hT ▸ hs
    obtain ⟨r, hr⟩ := concat_self_nil hnil 0
    rw [hT]
    refine ⟨iff_of_true ⟨0, r, h, s, hr, hnil⟩ hzero, iff_of_true ⟨0, h, s, ?_, hnil⟩ hzero⟩
    rw [addAssign, hr]
    rfl
  · have hne : s.len ≠ 0 := by
      rw [hlen]
      exact (List.length_pos_iff.mpr hT).ne'
    constructor
    · refine iff_of_false ?_ hne
      rintro ⟨turns, r, h', s', hconcat, -⟩
      rw [concat_self hs hT turns] at hconcat
      cases hconcat
    · refine iff_of_false ?_ hne
      rintro ⟨turns, h', s', hassign, -⟩
      rw [addAssign, concat_self hs hT turns] at hassign
      cases hassign

/-- A text with room for it twice, and one in a block of 16 bytes that it fills. -/
theorem doubles_iff_full :
    (Doubles [some (List.replicate 15 0x61 ++ [0])] ⟨some 0, 15, 15⟩ (List.replicate 15 0x61) ↔
      15 = 0) ∧
      (DoublesAssign [some [0, 0]] ⟨some 0, 1, 0⟩ [] ↔ 0 = 0) :=
  ⟨(doubles_iff ⟨_, rfl, by decide, by decide, by decide, by decide⟩).1,
    (doubles_iff ⟨_, rfl, by decide, by decide, by decide, by decide⟩).2⟩

/-- **`s += s` of one character** in a block of 16 bytes runs out of it. -/
theorem not_doubles_one : ¬ ∀ (h : BlockHeap) (s : HeapString) (T : List UInt8), s.HasText h T →
    Doubles h s T ∧ DoublesAssign h s T := by
  intro hall
  have hs : HasText [some (0x61 :: List.replicate 15 0)] ⟨some 0, 15, 1⟩ [0x61] :=
    ⟨_, rfl, by decide, by decide, by decide, by decide⟩
  obtain ⟨⟨turns, r, h', s', hconcat, -⟩, -⟩ := hall _ _ _ hs
  rw [concat_self hs (List.cons_ne_nil _ _) turns] at hconcat
  cases hconcat

end HeapString
