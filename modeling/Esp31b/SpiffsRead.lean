import Esp31b.SpiffsHal

/-!
# The SPIFFS flash read

`spi_flash_read` wants a flash address that is a multiple of four.
`spiffs_hal_read` reads the word before the first boundary and the word behind
the last one into a temporary, copies the bytes that were asked for out of
it, and reads the words in between directly.

The SDK call is again a parameter, `SpiFlashRead`, and every store to the
destination is recorded.

The temporary of the head is a `uint32_t`, and the address of its bytes is
computed as `&tmp + 4 - nb`: words, not bytes, behind it. What is copied is
never part of the temporary, it is the stack behind it, and as many bytes of
it as there are up to the boundary, even when fewer were asked for.
`spiffsHalRead_exact_iff` is what follows: only a read that starts at a
boundary is as it should be, or one whose head happens to be on the stack.
-/

/-- The SDK's `spi_flash_read`: flash contents, address and length to the
result code and the bytes stored. -/
abbrev SpiFlashRead : Type := ByteMem → ℕ → ℕ → ℤ × List UInt8

/-- **What the SDK documents**: at word-aligned addresses the call succeeds
and copies the flash contents. -/
def SpiFlashRead.Copies (sdk : SpiFlashRead) : Prop :=
  ∀ (f : ByteMem) (a n : ℕ), 4 ∣ a → sdk f a n = (0, f.slice a n)

namespace SpiffsHal

/-- What a read has done so far: the memory, and the runs `(pointer, length)`
it has stored. -/
structure ReadState where
  mem : ByteMem
  writes : List (ℕ × ℕ)

/-- A run stored, and the store recorded. -/
def ReadState.store (s : ReadState) (p : ℕ) (d : List UInt8) : ReadState :=
  ⟨s.mem.store p d, s.writes ++ [(p, d.length)]⟩

variable (sdk : SpiFlashRead) (stack flash : ByteMem)

/-- `EspClass::flashRead`: the SDK call, successful when it returns 0. -/
def flashRead (a n : ℕ) : Option (List UInt8) :=
  let r := sdk flash a n
  if r.1 == 0 then some r.2 else none

/-- The part before the first word boundary. `stack` is the memory from
`&tmp` on, and `&tmp + 4 - nb` is `4 * (4 - nb)` bytes into it. -/
def readHead (addr dst : ℕ) (s : ReadState) : Bool × ReadState :=
  if addr < alignedBegin addr then
    let nb := alignedBegin addr - addr
    match flashRead sdk flash (alignedBegin addr - 4) 4 with
    | none => (false, s)
    | some tmp => (true, s.store dst ((stack.store 0 tmp).slice (4 * (4 - nb)) nb))
  else (true, s)

/-- The whole words in between. -/
def readMiddle (addr size dst : ℕ) (s : ReadState) : Bool × ReadState :=
  if alignedEnd addr size ≠ alignedBegin addr then
    match flashRead sdk flash (alignedBegin addr)
      (alignedEnd addr size - alignedBegin addr) with
    | none => (false, s)
    | some d => (true, s.store (dst + alignedBegin addr - addr) d)
  else (true, s)

/-- The part after the last word boundary. -/
def readTail (addr size dst : ℕ) (s : ReadState) : Bool × ReadState :=
  if (addr + size) % 2 ^ 32 > alignedEnd addr size then
    let nb := (addr + size) % 2 ^ 32 - alignedEnd addr size
    match flashRead sdk flash (alignedEnd addr size) 4 with
    | none => (false, s)
    | some tmp => (true, s.store (dst + size - nb) (tmp.take nb))
  else (true, s)

/-- **`spiffs_hal_read(addr, size, dst)`** with the destination at address
`dst` of `mem`. -/
def spiffsHalRead (mem : ByteMem) (addr size dst : ℕ) : ℤ × ReadState :=
  match readHead sdk stack flash addr dst ⟨mem, []⟩ with
  | (false, s) => (errInternal, s)
  | (true, s) =>
    match readMiddle sdk flash addr size dst s with
    | (false, s) => (errInternal, s)
    | (true, s) =>
      match readTail sdk flash addr size dst s with
      | (false, s) => (errInternal, s)
      | (true, s) => (ok, s)

/-- How many bytes there are up to the first word boundary. -/
def headLength (addr : ℕ) : ℕ := alignedBegin addr - addr

/-- What the head copies: bytes of the stack behind the temporary. -/
def headRun (addr : ℕ) : List UInt8 := stack.slice (4 * (4 - headLength addr)) (headLength addr)

/-! ## What each part does -/

section Parts

variable {sdk} (hsdk : sdk.Copies)

include hsdk in
theorem flashRead_eq {a : ℕ} (n : ℕ) (ha : 4 ∣ a) :
    flashRead sdk flash a n = some (flash.slice a n) := by
  rw [flashRead, hsdk flash a n ha]
  rfl

/-- The temporary is in front of everything the head copies. -/
theorem slice_store_tmp {tmp : List UInt8} (htmp : tmp.length = 4) {k n : ℕ} (hk : 4 ≤ k) :
    (stack.store 0 tmp).slice k n = stack.slice k n := by
  refine List.map_congr_left (fun i _ => ?_)
  exact ByteMem.combineAt_of_not_mem _ _ _ _ _ (by omega)

include hsdk in
/-- **The head** stores bytes of the stack. -/
theorem readHead_eq (addr dst : ℕ) (h : addr + 3 < 2 ^ 32) (s : ReadState) :
    ∃ writes, readHead sdk stack flash addr dst s
        = (true, ⟨s.mem.store dst (headRun stack addr), s.writes ++ writes⟩) ∧
      (∀ w ∈ writes, w = (dst, headLength addr)) ∧
      (0 < headLength addr → (dst, headLength addr) ∈ writes) := by
  obtain ⟨hle, hlt, hdvd⟩ := alignedBegin_spec addr h
  unfold readHead
  by_cases hne : addr < alignedBegin addr
  · refine ⟨[(dst, headLength addr)], ?_, by simp, by simp⟩
    rw [if_pos hne, flashRead_eq flash hsdk 4 (by omega)]
    dsimp only
    rw [slice_store_tmp stack (ByteMem.length_slice _ _ _) (by omega), ReadState.store,
      ByteMem.length_slice]
    rfl
  · have hzero : headLength addr = 0 := by
      unfold headLength
      omega
    refine ⟨[], ?_, by simp, by omega⟩
    rw [if_neg hne, headRun, hzero, List.append_nil, ByteMem.slice_zero, ByteMem.store,
      ByteMem.combineAt_nil]

include hsdk in
/-- **The middle** stores the whole words in between. -/
theorem readMiddle_eq (addr size dst : ℕ) (h : addr + size + 3 < 2 ^ 32) (s : ReadState) :
    ∃ writes, readMiddle sdk flash addr size dst s
        = (true, ⟨s.mem.store (dst + alignedBegin addr - addr)
            (flash.slice (alignedBegin addr) (alignedEnd addr size - alignedBegin addr)),
          s.writes ++ writes⟩) ∧
      ∀ w ∈ writes, dst ≤ w.1 ∧ w.1 + w.2 ≤ dst + size := by
  obtain ⟨hdvd, hble, hcase⟩ := alignedEnd_spec h
  obtain ⟨hle, -, hbdvd⟩ := alignedBegin_spec addr (by omega)
  unfold readMiddle
  by_cases hne : alignedEnd addr size ≠ alignedBegin addr
  · refine ⟨[(dst + alignedBegin addr - addr, alignedEnd addr size - alignedBegin addr)], ?_,
      ?_⟩
    · rw [if_pos hne, flashRead_eq flash hsdk _ hbdvd]
      dsimp only
      rw [ReadState.store, ByteMem.length_slice]
    · simp only [List.mem_singleton, forall_eq]
      omega
  · rw [not_not] at hne
    refine ⟨[], ?_, by simp⟩
    rw [if_neg (by simp [hne]), hne, Nat.sub_self, ByteMem.slice_zero, ByteMem.store,
      ByteMem.combineAt_nil, List.append_nil]

include hsdk in
/-- **The tail** stores the bytes after the last boundary. -/
theorem readTail_eq (addr size dst : ℕ) (h : addr + size + 3 < 2 ^ 32) (s : ReadState) :
    ∃ writes, readTail sdk flash addr size dst s
        = (true, ⟨s.mem.store (dst + size - (addr + size - alignedEnd addr size))
            (flash.slice (alignedEnd addr size) (addr + size - alignedEnd addr size)),
          s.writes ++ writes⟩) ∧
      ∀ w ∈ writes, dst ≤ w.1 ∧ w.1 + w.2 ≤ dst + size := by
  obtain ⟨hdvd, hble, hcase⟩ := alignedEnd_spec h
  obtain ⟨hle, -, -⟩ := alignedBegin_spec addr (by omega)
  unfold readTail
  rw [Nat.mod_eq_of_lt (show addr + size < 2 ^ 32 by omega)]
  by_cases hgt : addr + size > alignedEnd addr size
  · refine ⟨[(dst + size - (addr + size - alignedEnd addr size),
      addr + size - alignedEnd addr size)], ?_, ?_⟩
    · rw [if_pos hgt, flashRead_eq flash hsdk _ hdvd]
      dsimp only
      rw [ByteMem.take_slice (by omega), ReadState.store, ByteMem.length_slice]
    · simp only [List.mem_singleton, forall_eq]
      omega
  · refine ⟨[], ?_, by simp⟩
    rw [if_neg hgt, show addr + size - alignedEnd addr size = 0 by omega, ByteMem.slice_zero,
      ByteMem.store, ByteMem.combineAt_nil, List.append_nil]

end Parts

/-! ## The whole read -/

/-- **The read is exact**: it succeeds, every byte asked for is the flash
byte, and nothing is stored outside the `size` bytes at `dst`. -/
structure ReadsExactly (addr size dst : ℕ) (r : ℤ × ReadState) : Prop where
  result : r.1 = ok
  contents : ∀ i < size, r.2.mem (dst + i) = flash (addr + i)
  within : ∀ w ∈ r.2.writes, dst ≤ w.1 ∧ w.1 + w.2 ≤ dst + size

variable {sdk}

/-- The three runs, one after the other, when the range reaches its first
boundary. -/
theorem store_parts (mem : ByteMem) (addr size dst : ℕ) (h : addr + size + 3 < 2 ^ 32)
    (hsize : headLength addr ≤ size) :
    ((mem.store dst (headRun stack addr)).store (dst + alignedBegin addr - addr)
        (flash.slice (alignedBegin addr) (alignedEnd addr size - alignedBegin addr))).store
        (dst + size - (addr + size - alignedEnd addr size))
        (flash.slice (alignedEnd addr size) (addr + size - alignedEnd addr size))
      = mem.store dst (headRun stack addr ++
          flash.slice (addr + headLength addr) (size - headLength addr)) := by
  obtain ⟨-, hble, hcase⟩ := alignedEnd_spec h
  obtain ⟨hle, -, -⟩ := alignedBegin_spec addr (by omega)
  have hhead : headLength addr = alignedBegin addr - addr := rfl
  have hlen : (headRun stack addr).length = headLength addr := ByteMem.length_slice _ _ _
  have htail : flash.slice (alignedBegin addr) (alignedEnd addr size - alignedBegin addr) ++
      flash.slice (alignedEnd addr size) (addr + size - alignedEnd addr size)
        = flash.slice (addr + headLength addr) (size - headLength addr) := by
    have happ :=
      flash.slice_append (alignedBegin addr) (alignedEnd addr size - alignedBegin addr)
      (addr + size - alignedEnd addr size)
    rw [show alignedBegin addr + (alignedEnd addr size - alignedBegin addr) =
      alignedEnd addr size by omega]
      at happ
    rw [happ]
    congr 1 <;> omega
  unfold ByteMem.store
  rw [show dst + alignedBegin addr - addr = dst + (headRun stack addr).length by omega,
    ByteMem.combineAt_append, show dst + size - (addr + size - alignedEnd addr size)
      = dst + (headRun stack addr ++
          flash.slice (alignedBegin addr) (alignedEnd addr size - alignedBegin addr)).length by
      rw [List.length_append, hlen, ByteMem.length_slice]; omega,
    ByteMem.combineAt_append, List.append_assoc, htail]

/-- What a read leaves behind. -/
theorem spiffsHalRead_eq (hsdk : sdk.Copies) (mem : ByteMem) (addr size dst : ℕ)
    (h : addr + size + 3 < 2 ^ 32) :
    ∃ mem' writes, spiffsHalRead sdk stack flash mem addr size dst = (ok, ⟨mem', writes⟩) ∧
      (headLength addr ≤ size → mem' = mem.store dst (headRun stack addr ++
        flash.slice (addr + headLength addr) (size - headLength addr))) ∧
      (∀ w ∈ writes, w = (dst, headLength addr) ∨ dst ≤ w.1 ∧ w.1 + w.2 ≤ dst + size) ∧
      (0 < headLength addr → (dst, headLength addr) ∈ writes) := by
  obtain ⟨wh, hhead, hwh, hmem⟩ := readHead_eq stack flash hsdk addr dst (by omega) ⟨mem, []⟩
  obtain ⟨wm, hmid, hwm⟩ := readMiddle_eq flash hsdk addr size dst h
    ⟨mem.store dst (headRun stack addr), [] ++ wh⟩
  obtain ⟨wt, htail, hwt⟩ := readTail_eq flash hsdk addr size dst h
    ⟨(mem.store dst (headRun stack addr)).store (dst + alignedBegin addr - addr)
      (flash.slice (alignedBegin addr) (alignedEnd addr size - alignedBegin addr)),
      [] ++ wh ++ wm⟩
  refine ⟨_, [] ++ wh ++ wm ++ wt, ?_, store_parts stack flash mem addr size dst h,
    fun w hw => ?_, fun hpos => ?_⟩
  · unfold spiffsHalRead
    simp only [hhead, hmid, htail]
  · simp only [List.nil_append, List.mem_append] at hw
    rcases hw with (hw | hw) | hw
    · exact Or.inl (hwh w hw)
    · exact Or.inr (hwm w hw)
    · exact Or.inr (hwt w hw)
  · simp [hmem hpos]

/-- **`spiffs_hal_read` is exact where it starts at a word boundary**, and
elsewhere only by accident: the range reaches the first boundary, and the
stack behind the temporary happens to hold the bytes up to it. -/
theorem spiffsHalRead_exact_iff (hsdk : sdk.Copies) (mem : ByteMem) (addr size dst : ℕ)
    (h : addr + size + 3 < 2 ^ 32) :
    ReadsExactly flash addr size dst (spiffsHalRead sdk stack flash mem addr size dst)
      ↔ addr % 4 = 0 ∨ headLength addr ≤ size ∧
        ∀ i < headLength addr, stack (4 * (4 - headLength addr) + i) = flash (addr + i) := by
  obtain ⟨hle, hlt, hdvd⟩ := alignedBegin_spec addr (by omega)
  have hhead : headLength addr = alignedBegin addr - addr := rfl
  have hlen : (headRun stack addr).length = headLength addr := ByteMem.length_slice _ _ _
  obtain ⟨mem', writes, heq, hmem, hwrites, hhw⟩ :=
    spiffsHalRead_eq stack flash hsdk mem addr size dst h
  rw [heq]
  constructor
  · intro hex
    by_cases hal : addr % 4 = 0
    · exact Or.inl hal
    -- the head is written whole, so it must fit
    have hsize : headLength addr ≤ size := by
      have hin := (hex.within _ (hhw (by omega))).2
      dsimp only at hin
      omega
    refine Or.inr ⟨hsize, fun i hi => ?_⟩
    have hbyte := hex.contents i (by omega)
    dsimp only at hbyte
    rw [hmem hsize, ByteMem.store, ByteMem.combineAt_of_mem
      _ _ _ _ _ (by rw [List.length_append]; omega),
      List.getElem_append_left (by omega)] at hbyte
    simpa [headRun] using hbyte
  · intro hok
    have hsize : headLength addr ≤ size := by omega
    have hrun : ∀ i < headLength addr, stack (4 * (4 - headLength addr) + i) =
        flash (addr + i) := by
      rcases hok with hal | ⟨-, hrun⟩
      · -- an aligned address has no head
        intro i hi
        omega
      · exact hrun
    refine ⟨rfl, fun i hi => ?_, fun w hw => ?_⟩
    · dsimp only
      rw [hmem hsize, ByteMem.store,
        ByteMem.combineAt_of_mem
          _ _ _ _ _ (by rw [List.length_append, hlen, ByteMem.length_slice]; omega)]
      rcases Nat.lt_or_ge i (headLength addr) with hin | hout
      · rw [List.getElem_append_left (by omega)]
        simpa [headRun] using hrun i hin
      · rw [List.getElem_append_right (by omega), ByteMem.getElem_slice, hlen]
        congr 1
        omega
    · rcases hwrites w hw with rfl | hin
      · exact ⟨le_refl _, by dsimp only; omega⟩
      · exact hin

/-- The documented SDK call, as a function. -/
def copyingFlash : SpiFlashRead := fun f a n => (0, f.slice a n)

theorem copies_copyingFlash : copyingFlash.Copies := fun _ _ _ _ => rfl

/-- Six bytes from flash address 4, over any stack. -/
theorem spiffsHalRead_exact_six :
    SpiFlashRead.Copies copyingFlash ∧
      ReadsExactly UInt8.ofNat 4 6 100
        (spiffsHalRead copyingFlash (fun _ => 0xA5) UInt8.ofNat (fun _ => 0) 4 6 100) :=
  ⟨copies_copyingFlash,
    (spiffsHalRead_exact_iff (fun _ => 0xA5) UInt8.ofNat copies_copyingFlash (fun _ => 0)
      4 6 100 (by decide)).mpr (Or.inl (by decide))⟩

/-- **One byte from flash address 1** is not read exactly: three bytes of the
stack are stored. -/
theorem spiffsHalRead_not_exact_one :
    ¬ ReadsExactly UInt8.ofNat 1 1 100
      (spiffsHalRead copyingFlash (fun _ => 0xA5) UInt8.ofNat (fun _ => 0) 1 1 100) := by
  intro hex
  have hmem : ((100, 3) : ℕ × ℕ) ∈
      (spiffsHalRead copyingFlash (fun _ => 0xA5) UInt8.ofNat (fun _ => 0) 1 1
      100).2.writes := by
    decide
  have hin := (hex.within _ hmem).2
  omega

end SpiffsHal
