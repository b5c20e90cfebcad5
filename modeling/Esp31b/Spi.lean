import Mathlib.Data.List.Basic
import Mathlib.Data.Nat.Notation

/-!
# The SPI controller

A transfer shifts out the bytes of the data registers, from the lowest address on and as
many as the length in `SPIxU1` says, and leaves in the registers what came back. The order
of the bits inside a byte is the controller's, set in `SPIxC`; the order of the bytes is
up to the driver, and each of its routines decides it from the same two bits.

Three of them agree: words sent at once, as halves or as bytes put the same on the wire
(`Spi.wire_byWrite32`). `transfer16` takes the bits the other way round, and what it sends
is right only where the order does not show (`Spi.agree_iff`).
-/

namespace Spi

/-- **A bus**: the registers of its controller that have a say, and what was shifted
out. -/
structure Bus where
  /-- Control, with the order of the bits. -/
  spic : BitVec 32
  /-- The lengths of the phases. -/
  spiu1 : BitVec 32
  /-- The data registers, by number. -/
  spiw : ℕ → BitVec 32
  /-- The bytes on the wire. -/
  wire : List (BitVec 8)

/-- Byte `i` of a word in memory. -/
def byteOf {w : ℕ} (x : BitVec w) (i : ℕ) : BitVec 8 := x.extractLsb' (8 * i) 8

/-- Byte `i` of the data registers. -/
def byteAt (spiw : ℕ → BitVec 32) (i : ℕ) : BitVec 8 := byteOf (spiw (i / 4)) (i % 4)

/-- How many bits are shifted out, in the nine bits of `SPIxU1` from `SPILMOSI` on. -/
def mosiBits (spiu1 : BitVec 32) : ℕ := (spiu1.extractLsb' 17 9).toNat + 1

/-- `SPICWBO | SPICRBO`. -/
def orderBits : BitVec 32 := (1#32 <<< 26) ||| (1#32 <<< 25)

variable (answer : List (BitVec 8) → ℕ → BitVec 32)

/-- **`SPICMD |= SPIBUSY`**, to its end. What is in the data registers then is the answer to
all that was sent. -/
def shift (b : Bus) : Bus :=
  let wire := b.wire ++ (List.range (mosiBits b.spiu1 / 8)).map (byteAt b.spiw)
  { b with wire := wire, spiw := answer wire }

def setBitOrder (bitOrder : BitVec 8) (b : Bus) : Bus :=
  if bitOrder = 1 then { b with spic := b.spic &&& ~~~orderBits }
  else { b with spic := b.spic ||| orderBits }

def setDataBits (bits : BitVec 16) (b : Bus) : Bus :=
  let mask := ~~~((0x1FF#32 <<< 17) ||| (0x1FF#32 <<< 8))
  let bits := (bits - 1).setWidth 32
  { b with spiu1 := (b.spiu1 &&& mask) ||| ((bits <<< 17) ||| (bits <<< 8)) }

/-- `SPIW0 = x`, and the other data registers. -/
def setW (i : ℕ) (x : BitVec 32) (b : Bus) : Bus :=
  { b with spiw := fun j => if j = i then x else b.spiw j }

/-- The byte that came back, and the bus. -/
def transfer (data : BitVec 8) (b : Bus) : BitVec 8 × Bus :=
  let b := shift answer (setW 0 (data.setWidth 32) (setDataBits 8 b))
  ((b.spiw 0).setWidth 8, b)

def transfer16 (data : BitVec 16) (b : Bus) : BitVec 16 × Bus :=
  if b.spic &&& orderBits ≠ 0 then
    let msb := transfer answer (byteOf data 1) b
    let lsb := transfer answer (byteOf data 0) msb.2
    (msb.1 ++ lsb.1, lsb.2)
  else
    let lsb := transfer answer (byteOf data 0) b
    let msb := transfer answer (byteOf data 1) lsb.2
    (msb.1 ++ lsb.1, msb.2)

def write (data : BitVec 8) (b : Bus) : Bus :=
  shift answer (setW 0 (data.setWidth 32) (setDataBits 8 b))

def write16Msb (data : BitVec 16) (msb : Bool) (b : Bus) : Bus :=
  let x := data.setWidth 32
  shift answer (setW 0 (if msb then (x >>> 8) ||| (x <<< 8) else x) (setDataBits 16 b))

def write16 (data : BitVec 16) (b : Bus) : Bus :=
  write16Msb answer data (b.spic &&& orderBits = 0) b

def write32Msb (data : BitVec 32) (msb : Bool) (b : Bus) : Bus :=
  let byte i := (byteOf data i).setWidth 32
  let swapped := byte 3 ||| (byte 2 <<< 8) ||| (byte 1 <<< 16) ||| (byte 0 <<< 24)
  shift answer (setW 0 (if msb then swapped else data) (setDataBits 32 b))

def write32 (data : BitVec 32) (b : Bus) : Bus :=
  write32Msb answer data (b.spic &&& orderBits = 0) b

/-! ## Words -/

/-- The halves of a word, in the order of their significance that `setBitOrder` names. -/
def halves (bitOrder : BitVec 8) (x : BitVec 32) : List (BitVec 16) :=
  if bitOrder = 1 then [x.extractLsb' 16 16, x.extractLsb' 0 16]
  else [x.extractLsb' 0 16, x.extractLsb' 16 16]

/-- The bytes of a word in this order. -/
def bytes (bitOrder : BitVec 8) (x : BitVec 32) : List (BitVec 8) :=
  if bitOrder = 1 then [byteOf x 3, byteOf x 2, byteOf x 1, byteOf x 0]
  else [byteOf x 0, byteOf x 1, byteOf x 2, byteOf x 3]

/-- One after the other. -/
def sendAll {α : Type} (send : α → Bus → Bus) (xs : List α) (b : Bus) : Bus :=
  xs.foldl (fun b x => send x b) b

def byWrite32 (words : List (BitVec 32)) (b : Bus) : Bus := sendAll (write32 answer) words b

def byWrite16 (bitOrder : BitVec 8) (words : List (BitVec 32)) (b : Bus) : Bus :=
  sendAll (write16 answer) (words.flatMap (halves bitOrder)) b

def byTransfer16 (bitOrder : BitVec 8) (words : List (BitVec 32)) (b : Bus) : Bus :=
  sendAll (fun x b => (transfer16 answer x b).2) (words.flatMap (halves bitOrder)) b

def byWrite (bitOrder : BitVec 8) (words : List (BitVec 32)) (b : Bus) : Bus :=
  sendAll (write answer) (words.flatMap (bytes bitOrder)) b

/-- **The routines agree** on what these words are on the wire. -/
def Agree (bitOrder : BitVec 8) (words : List (BitVec 32)) (b : Bus) : Prop :=
  let b := setBitOrder bitOrder b
  (byWrite16 answer bitOrder words b).wire = (byWrite32 answer words b).wire ∧
    (byTransfer16 answer bitOrder words b).wire = (byWrite32 answer words b).wire ∧
    (byWrite answer bitOrder words b).wire = (byWrite32 answer words b).wire

variable {answer : List (BitVec 8) → ℕ → BitVec 32} {b : Bus} {words : List (BitVec 32)}
  {bitOrder : BitVec 8}

/-! ## Bytes of words -/

section

variable {v w : ℕ}

theorem byteOf_extract (x : BitVec w) (i j : ℕ) (hj : j < 2) :
    byteOf (x.extractLsb' (16 * i) 16) j = byteOf x (2 * i + j) := by
  refine BitVec.eq_of_getLsbD_eq fun k hk => ?_
  simp only [byteOf, BitVec.getLsbD_extractLsb', hk, decide_true, Bool.true_and]
  rw [decide_eq_true (by omega), Bool.true_and]
  exact congrArg _ (by omega)

theorem byteOf_setWidth (x : BitVec w) {i : ℕ} (hi : 8 * i + 8 ≤ v) :
    byteOf (x.setWidth v) i = byteOf x i := by
  refine BitVec.eq_of_getLsbD_eq fun k hk => ?_
  simp only [byteOf, BitVec.getLsbD_extractLsb', BitVec.getLsbD_setWidth]
  rw [decide_eq_true (by omega : 8 * i + k < v), Bool.true_and]

/-- Behind a word there is nothing. -/
theorem byteOf_of_le (x : BitVec w) {i : ℕ} (hi : w ≤ 8 * i) : byteOf x i = 0#8 := by
  refine BitVec.eq_of_getLsbD_eq fun k hk => ?_
  simp only [byteOf, BitVec.getLsbD_extractLsb', BitVec.getLsbD_zero]
  rw [BitVec.getLsbD_of_ge x _ (by omega), Bool.and_false]

theorem byteOf_zero (x : BitVec 8) : byteOf x 0 = x := by
  refine BitVec.eq_of_getLsbD_eq fun k hk => ?_
  simp only [byteOf, BitVec.getLsbD_extractLsb', hk, decide_true, Bool.true_and]
  exact congrArg _ (by omega)

theorem byteOf_or (x y : BitVec w) (i : ℕ) : byteOf (x ||| y) i = byteOf x i ||| byteOf y i :=
  BitVec.extractLsb'_or

theorem byteOf_ushiftRight (x : BitVec w) (n i : ℕ) :
    byteOf (x >>> (8 * n)) i = byteOf x (n + i) := by
  refine BitVec.eq_of_getLsbD_eq fun k hk => ?_
  simp only [byteOf, BitVec.getLsbD_extractLsb', BitVec.getLsbD_ushiftRight]
  rw [Nat.mul_add, Nat.add_assoc]

theorem byteOf_shiftLeft (x : BitVec w) (n : ℕ) {i : ℕ} (hi : 8 * i + 8 ≤ w) :
    byteOf (x <<< (8 * n)) i = if n ≤ i then byteOf x (i - n) else 0#8 := by
  refine BitVec.eq_of_getLsbD_eq fun k hk => ?_
  simp only [byteOf, BitVec.getLsbD_extractLsb', BitVec.getLsbD_shiftLeft, hk, decide_true,
    Bool.true_and]
  rw [decide_eq_true (by omega : 8 * i + k < w), Bool.true_and]
  split
  · rw [decide_eq_false (by omega : ¬ 8 * i + k < 8 * n), Bool.not_false, Bool.true_and,
      BitVec.getLsbD_extractLsb', decide_eq_true hk, Bool.true_and]
    exact congrArg _ (by omega)
  · rw [decide_eq_true (by omega : 8 * i + k < 8 * n), Bool.not_true, Bool.false_and,
      BitVec.getLsbD_zero]

end

/-- The bytes of a half-word are exchanged, in front of what is left of it. -/
theorem byteOf_swap16 (x : BitVec 16) :
    byteOf ((x.setWidth 32 >>> 8) ||| (x.setWidth 32 <<< 8)) 0 = byteOf x 1 ∧
      byteOf ((x.setWidth 32 >>> 8) ||| (x.setWidth 32 <<< 8)) 1 = byteOf x 0 := by
  constructor
  · rw [byteOf_or, byteOf_ushiftRight _ 1, byteOf_shiftLeft _ 1 (by decide), if_neg (by decide),
      byteOf_setWidth _ (by decide), BitVec.or_zero]
  · rw [byteOf_or, byteOf_ushiftRight _ 1, byteOf_shiftLeft _ 1 (by decide), if_pos (by decide),
      byteOf_setWidth _ (by decide), byteOf_setWidth _ (by decide), byteOf_of_le x (by decide),
      BitVec.zero_or]

/-- A byte that is shifted to its place in a word. -/
theorem byteOf_place (x : BitVec 8) (n : ℕ) {i : ℕ} (hi : i < 4) :
    byteOf (x.setWidth 32 <<< (8 * n)) i = if i = n then x else 0#8 := by
  rw [byteOf_shiftLeft _ _ (by omega)]
  rcases Nat.lt_trichotomy i n with hlt | rfl | hgt
  · rw [if_neg (by omega), if_neg (by omega)]
  · rw [if_pos (Nat.le_refl _), if_pos rfl, Nat.sub_self, byteOf_setWidth _ (by decide),
      byteOf_zero]
  · rw [if_pos (by omega), if_neg (by omega), byteOf_setWidth _ (by omega),
      byteOf_of_le _ (by omega)]

/-- The bytes of a word are turned round. -/
theorem byteOf_swap32 (f : ℕ → BitVec 8) {i : ℕ} (hi : i < 4) :
    byteOf ((f 3).setWidth 32 ||| ((f 2).setWidth 32 <<< 8) ||| ((f 1).setWidth 32 <<< 16) |||
      ((f 0).setWidth 32 <<< 24)) i = f (3 - i) := by
  have h3 := byteOf_place (f 3) 0 hi
  rw [Nat.mul_zero, BitVec.shiftLeft_zero] at h3
  rw [byteOf_or, byteOf_or, byteOf_or, h3, byteOf_place _ 1 hi, byteOf_place _ 2 hi,
    byteOf_place _ 3 hi]
  match i, hi with
  | 0, _ | 1, _ | 2, _ | 3, _ => simp

/-! ## What is sent -/

/-- The length that was set is the one that is used. -/
theorem mosiBits_setDataBits (bits : BitVec 16) (hpos : 0 < bits.toNat) (h : bits.toNat ≤ 512) :
    mosiBits (setDataBits bits b).spiu1 = bits.toNat := by
  have hsub : (bits - 1).toNat = bits.toNat - 1 := by
    rw [BitVec.toNat_sub_of_le (by bv_omega)]
    rfl
  have hwidth : ((bits - 1).setWidth 32).toNat = bits.toNat - 1 := by
    rw [BitVec.toNat_setWidth, hsub, Nat.mod_eq_of_lt (by omega)]
  have hmosi : (((bits - 1).setWidth 32 <<< 17).extractLsb' 17 9).toNat = bits.toNat - 1 := by
    rw [BitVec.extractLsb'_toNat, BitVec.toNat_shiftLeft, hwidth, Nat.shiftLeft_eq,
      Nat.shiftRight_eq_div_pow]
    omega
  have hmiso : ((bits - 1).setWidth 32 <<< 8).extractLsb' 17 9 = 0#9 := by
    refine BitVec.eq_of_toNat_eq ?_
    rw [BitVec.extractLsb'_toNat, BitVec.toNat_shiftLeft, hwidth, Nat.shiftLeft_eq,
      Nat.shiftRight_eq_div_pow, BitVec.toNat_ofNat]
    omega
  have hmask : (~~~((0x1FF#32 <<< 17) ||| (0x1FF#32 <<< 8))).extractLsb' 17 9 = 0#9 := by decide
  unfold mosiBits setDataBits
  dsimp only
  rw [BitVec.extractLsb'_or, BitVec.extractLsb'_or, BitVec.extractLsb'_and, hmask, hmiso,
    BitVec.and_zero, BitVec.zero_or, BitVec.or_zero, hmosi]
  omega

/-- **What a transfer of so many bytes sends.** -/
theorem wire_shift {n : ℕ} (h : mosiBits b.spiu1 = 8 * n) :
    (shift answer b).wire = b.wire ++ (List.range n).map (byteAt b.spiw) := by
  unfold shift
  rw [h, Nat.mul_div_cancel_left _ (by decide)]

/-- The same for a transfer from the first data register. -/
theorem wire_shift_setW {bits : BitVec 16} {n : ℕ} (hbits : bits.toNat = 8 * n) (hpos : 0 < n)
    (h : n ≤ 4) (x : BitVec 32) (b : Bus) :
    (shift answer (setW 0 x (setDataBits bits b))).wire =
      b.wire ++ (List.range n).map (byteOf x) := by
  have hlength : mosiBits (setW 0 x (setDataBits bits b)).spiu1 = 8 * n := by
    rw [← hbits]
    exact mosiBits_setDataBits bits (by omega) (by omega)
  rw [wire_shift hlength]
  refine congrArg (b.wire ++ ·) (List.map_congr_left fun i hi => ?_)
  have hlt := List.mem_range.mp hi
  unfold byteAt setW
  dsimp only
  rw [if_pos (by omega), Nat.mod_eq_of_lt (by omega)]

theorem wire_write (data : BitVec 8) (b : Bus) :
    (write answer data b).wire = b.wire ++ [data] := by
  unfold write
  rw [wire_shift_setW (n := 1) rfl (by decide) (by decide)]
  exact congrArg (fun x => b.wire ++ [x])
    ((byteOf_setWidth data (by decide)).trans (byteOf_zero data))

/-- `transfer` sends what `write` does. -/
theorem snd_transfer (data : BitVec 8) (b : Bus) :
    (transfer answer data b).2 = write answer data b := rfl

theorem wire_write16Msb (data : BitVec 16) (msb : Bool) (b : Bus) :
    (write16Msb answer data msb b).wire =
      b.wire ++ if msb then [byteOf data 1, byteOf data 0]
        else [byteOf data 0, byteOf data 1] := by
  unfold write16Msb
  dsimp only
  rw [wire_shift_setW (n := 2) rfl (by decide) (by decide)]
  refine congrArg (b.wire ++ ·) ?_
  cases msb with
  | true =>
    obtain ⟨h0, h1⟩ := byteOf_swap16 data
    exact congrArg₂ (fun x y => [x, y]) h0 h1
  | false =>
    have hbyte : ∀ i < 2, byteOf (data.setWidth 32) i = byteOf data i :=
      fun i hi => byteOf_setWidth data (by omega)
    exact congrArg₂ (fun x y => [x, y]) (hbyte 0 (by decide)) (hbyte 1 (by decide))

theorem wire_write32Msb (data : BitVec 32) (msb : Bool) (b : Bus) :
    (write32Msb answer data msb b).wire =
      b.wire ++ if msb then [byteOf data 3, byteOf data 2, byteOf data 1, byteOf data 0]
        else [byteOf data 0, byteOf data 1, byteOf data 2, byteOf data 3] := by
  unfold write32Msb
  dsimp only
  rw [wire_shift_setW (n := 4) rfl (by decide) (by decide)]
  refine congrArg (b.wire ++ ·) ?_
  cases msb with
  | true =>
    have hlist : List.range 4 = [0, 1, 2, 3] := rfl
    rw [if_pos rfl, if_pos rfl, hlist]
    exact List.map_congr_left (g := fun i => byteOf data (3 - i)) fun i hi =>
      byteOf_swap32 (byteOf data) (List.mem_range.mp hi)
  | false => rfl

/-! ## The order -/

/-- The bits are as `setBitOrder` leaves them. -/
def Ordered (bitOrder : BitVec 8) (b : Bus) : Prop :=
  b.spic &&& orderBits = 0 ↔ bitOrder = 1

theorem ordered_setBitOrder (bitOrder : BitVec 8) (b : Bus) :
    Ordered bitOrder (setBitOrder bitOrder b) := by
  unfold Ordered setBitOrder
  split
  · rename_i h
    refine iff_of_true ?_ h
    show (b.spic &&& ~~~orderBits) &&& orderBits = 0
    rw [BitVec.and_assoc, BitVec.and_comm (~~~orderBits)]
    show b.spic &&& (orderBits &&& ~~~orderBits) = 0
    rw [show orderBits &&& ~~~orderBits = 0#32 by decide, BitVec.and_zero]
    rfl
  · rename_i h
    refine iff_of_false (fun hzero => ?_) h
    have hbit := congrArg (BitVec.getLsbD · 26) hzero
    rw [show ((b.spic ||| orderBits) &&& orderBits).getLsbD 26 = true by
      rw [BitVec.getLsbD_and, BitVec.getLsbD_or, show orderBits.getLsbD 26 = true by decide,
        Bool.or_true, Bool.and_true]] at hbit
    cases hbit

theorem wire_write16 (h : Ordered bitOrder b) (data : BitVec 16) :
    (write16 answer data b).wire = b.wire ++
      if bitOrder = 1 then [byteOf data 1, byteOf data 0]
        else [byteOf data 0, byteOf data 1] := by
  unfold write16
  rw [wire_write16Msb]
  simp only [decide_eq_true_iff, h.eq]

theorem wire_write32 (h : Ordered bitOrder b) (data : BitVec 32) :
    (write32 answer data b).wire = b.wire ++ bytes bitOrder data := by
  unfold write32
  rw [wire_write32Msb]
  simp only [decide_eq_true_iff, h.eq]
  rfl

/-- **`transfer16` has it the other way round.** -/
theorem wire_transfer16 (h : Ordered bitOrder b) (data : BitVec 16) :
    (transfer16 answer data b).2.wire = b.wire ++
      if bitOrder = 1 then [byteOf data 0, byteOf data 1]
        else [byteOf data 1, byteOf data 0] := by
  unfold transfer16
  by_cases hmsb : bitOrder = 1
  · rw [if_neg (not_not.mpr (h.mpr hmsb)), if_pos hmsb]
    dsimp only
    rw [snd_transfer, snd_transfer, wire_write, wire_write, List.append_assoc]
    rfl
  · rw [if_pos (fun hzero => hmsb (h.mp hzero)), if_neg hmsb]
    dsimp only
    rw [snd_transfer, snd_transfer, wire_write, wire_write, List.append_assoc]
    rfl

theorem spic_transfer16 (data : BitVec 16) (b : Bus) :
    (transfer16 answer data b).2.spic = b.spic := by
  unfold transfer16
  split <;> rfl

/-- **A run of transfers** sends what each of them does. -/
theorem wire_sendAll {α : Type} {send : α → Bus → Bus} {sent : α → List (BitVec 8)}
    (hwire : ∀ x b, Ordered bitOrder b → (send x b).wire = b.wire ++ sent x)
    (hspic : ∀ x b, (send x b).spic = b.spic)
    (h : Ordered bitOrder b) (xs : List α) :
    (sendAll send xs b).wire = b.wire ++ xs.flatMap sent := by
  induction xs generalizing b with
  | nil => exact (List.append_nil b.wire).symm
  | cons x xs ih =>
    have hnext : Ordered bitOrder (send x b) := by
      unfold Ordered
      rw [hspic]
      exact h
    show (sendAll send xs (send x b)).wire = _
    rw [ih hnext, hwire x b h, List.append_assoc]
    rfl

/-- The bytes of the halves. -/
theorem halves_flatMap (bitOrder : BitVec 8) (f : BitVec 8 → BitVec 8 → List (BitVec 8))
    (x : BitVec 32) :
    ((halves bitOrder x).flatMap fun y => f (byteOf y 0) (byteOf y 1)) =
      if bitOrder = 1 then f (byteOf x 2) (byteOf x 3) ++ f (byteOf x 0) (byteOf x 1)
      else f (byteOf x 0) (byteOf x 1) ++ f (byteOf x 2) (byteOf x 3) := by
  have hbyte : ∀ i j, j < 2 → byteOf (x.extractLsb' (16 * i) 16) j = byteOf x (2 * i + j) :=
    fun i j hj => byteOf_extract x i j hj
  have hlow := congrArg₂ f (hbyte 0 0 (by decide)) (hbyte 0 1 (by decide))
  have hhigh := congrArg₂ f (hbyte 1 0 (by decide)) (hbyte 1 1 (by decide))
  unfold halves
  split
  · exact congrArg₂ (· ++ ·) hhigh ((List.append_nil _).trans hlow)
  · exact congrArg₂ (· ++ ·) hlow ((List.append_nil _).trans hhigh)

theorem wire_byWrite32 (h : Ordered bitOrder b) (words : List (BitVec 32)) :
    (byWrite32 answer words b).wire = b.wire ++ words.flatMap (bytes bitOrder) :=
  wire_sendAll (fun x _ hb => wire_write32 hb x) (fun _ _ => rfl) h words

theorem wire_byWrite16 (h : Ordered bitOrder b) (words : List (BitVec 32)) :
    (byWrite16 answer bitOrder words b).wire = b.wire ++ words.flatMap (bytes bitOrder) := by
  unfold byWrite16
  rw [wire_sendAll (fun x _ hb => wire_write16 hb x) (fun _ _ => rfl) h, List.flatMap_assoc]
  refine congrArg (b.wire ++ words.flatMap ·) (funext fun x => ?_)
  rw [halves_flatMap bitOrder (fun l m => if bitOrder = 1 then [m, l] else [l, m])]
  unfold bytes
  split <;> rfl

theorem wire_byWrite (h : Ordered bitOrder b) (words : List (BitVec 32)) :
    (byWrite answer bitOrder words b).wire = b.wire ++ words.flatMap (bytes bitOrder) := by
  unfold byWrite
  rw [wire_sendAll (fun x b _ => wire_write x b) (fun _ _ => rfl) h, List.flatMap_assoc]
  exact congrArg (b.wire ++ words.flatMap ·) (funext fun x => List.flatMap_singleton' _)

theorem wire_byTransfer16 (h : Ordered bitOrder b) (words : List (BitVec 32)) :
    (byTransfer16 answer bitOrder words b).wire =
      b.wire ++ words.flatMap (fun x => if bitOrder = 1
        then [byteOf x 2, byteOf x 3, byteOf x 0, byteOf x 1]
        else [byteOf x 1, byteOf x 0, byteOf x 3, byteOf x 2]) := by
  unfold byTransfer16
  rw [wire_sendAll (fun x _ hb => wire_transfer16 hb x) spic_transfer16 h, List.flatMap_assoc]
  refine congrArg (b.wire ++ words.flatMap ·) (funext fun x => ?_)
  rw [halves_flatMap bitOrder (fun l m => if bitOrder = 1 then [l, m] else [m, l])]
  split <;> rfl

/-- Texts of equal pieces are equal piece by piece. -/
theorem flatMap_eq_iff {α β : Type} {f g : α → List β}
    (hlength : ∀ x, (f x).length = (g x).length)
    (xs : List α) : xs.flatMap f = xs.flatMap g ↔ ∀ x ∈ xs, f x = g x := by
  induction xs with
  | nil => simp
  | cons x xs ih =>
    rw [List.flatMap_cons, List.flatMap_cons, List.forall_mem_cons, ← ih]
    constructor
    · exact fun h => List.append_inj h (hlength x)
    · rintro ⟨hx, hxs⟩
      rw [hx, hxs]

/-- **They agree**, whatever is on the bus and whatever comes back, if and only if the words
do not show the order: every half has two equal bytes. -/
theorem agree_iff (answer : List (BitVec 8) → ℕ → BitVec 32) (bitOrder : BitVec 8)
    (words : List (BitVec 32)) (b : Bus) :
    Agree answer bitOrder words b ↔
      ∀ x ∈ words, byteOf x 0 = byteOf x 1 ∧ byteOf x 2 = byteOf x 3 := by
  have h := ordered_setBitOrder bitOrder b
  unfold Agree
  dsimp only
  rw [wire_byWrite16 h, wire_byWrite32 h, wire_byWrite h, wire_byTransfer16 h]
  simp only [true_and, and_true]
  rw [List.append_right_inj, flatMap_eq_iff fun x => by unfold bytes; split <;> rfl]
  refine forall₂_congr fun x _ => ?_
  unfold bytes
  split
  · refine ⟨fun heq => ?_, fun heq => by rw [heq.1, heq.2]⟩
    injection heq with h2 heq
    injection heq with _ heq
    injection heq with h0 _
    exact ⟨h0, h2⟩
  · refine ⟨fun heq => ?_, fun heq => by rw [heq.1, heq.2]⟩
    injection heq with h0 heq
    injection heq with _ heq
    injection heq with h2 _
    exact ⟨h0.symm, h2.symm⟩

/-- The word `0x00000001`, on a bus that was just set up. -/
theorem not_agree_one :
    ¬ Agree (fun _ _ => 0) 1 [1] { spic := 0, spiu1 := 0, spiw := fun _ => 0, wire := [] } := by
  intro h
  have hwire := h.2.1
  revert hwire
  decide

end Spi
