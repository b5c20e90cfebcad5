import Mathlib.Algebra.GroupWithZero.Nat
import Mathlib.Data.Int.Notation
import Mathlib.Order.Nat
import Esp31b.Machine
import Esp31b.Si2c

/-!
# The buffers of `Wire`

`TwoWire` has a buffer of 32 bytes for each direction, with an index and a length
that are fields of their own. The lengths are kept below 33 at different places: a
request is cut to 32 bytes, and a byte to be written is refused when there are 32.

A request for no bytes is not cut. `twi_readFrom` then has a length of 0, of which it
takes one away: it reads almost `2 ^ 32` bytes, and the 33rd one is written behind
the buffer. It does so if the device answers to its address, which a scan of the bus
for devices asks of every one (`TwoWire.runs_iff`).
-/

namespace Twi

variable {σ : Type} (bus : Bus σ) (t : Timing)

/-- The line is free, and a device answers to the address. -/
def answers (address : UInt8) (s : σ) : Bool :=
  (writeStart bus t s).1 && (writeByte bus t (address <<< 1 ||| 1) (writeStart bus t s).2).1

variable {address : UInt8} {buf : List UInt8} {len : UInt32} {n i : ℕ}

/-- **The bytes of a text are sent**, if they are there. -/
theorem exists_writeLoop (s : σ) (h : i + n ≤ buf.length) :
    ∃ r, writeLoop bus t buf n i s = some r := by
  induction n generalizing i s with
  | zero => exact ⟨_, rfl⟩
  | succ n ih =>
    rw [writeLoop, List.getElem?_eq_getElem (by omega), Option.bind_eq_bind, Option.bind_some]
    dsimp only
    split
    · exact ih _ (by omega)
    · exact ⟨_, rfl⟩

theorem exists_writeTo (address : UInt8) (sendStop : Bool) (s : σ)
    (h : len.toNat ≤ buf.length) :
    ∃ r, writeTo bus t address buf len sendStop s = some r := by
  unfold writeTo
  dsimp only
  split
  · split
    · obtain ⟨r, hr⟩ := exists_writeLoop bus t
        (writeByte bus t (address <<< 1 ||| 0) (writeStart bus t s).2).2
        (by omega : 0 + len.toNat ≤ buf.length)
      rw [hr, Option.bind_eq_bind, Option.bind_some]
      split
      · exact ⟨_, rfl⟩
      · exact ⟨_, rfl⟩
    · exact ⟨_, rfl⟩
  · exact ⟨_, rfl⟩

variable {bus t}

/-- **The bytes that are read** go to their places, and to no other ones. -/
theorem readLoop_frame {r : List UInt8 × σ} {s : σ} (h : readLoop bus t n i buf s = some r) :
    r.1.length = buf.length ∧ r.1.drop (i + n) = buf.drop (i + n) := by
  induction n generalizing i buf s with
  | zero =>
    cases h
    exact ⟨rfl, rfl⟩
  | succ n ih =>
    obtain ⟨b, hset, hrest⟩ := Option.bind_eq_some_iff.mp h
    obtain ⟨hlength, hdrop⟩ := ih hrest
    rw [Nat.add_right_comm] at hdrop
    exact ⟨hlength.trans (Block.length_of_set hset),
      hdrop.trans (Block.drop_of_set hset (by omega))⟩

theorem exists_readLoop (bus : Bus σ) (t : Timing) (s : σ) (h : i + n ≤ buf.length) :
    ∃ r, readLoop bus t n i buf s = some r := by
  induction n generalizing i buf s with
  | zero => exact ⟨_, rfl⟩
  | succ n ih =>
    have hset : Block.set buf i (readByte bus t false s).1 =
        some (buf.set i (readByte bus t false s).1) := if_pos (by omega)
    rw [readLoop]
    dsimp only
    rw [hset, Option.bind_eq_bind, Option.bind_some]
    exact ih _ (by rw [List.length_set]; omega)

/-- **A byte behind the buffer.** -/
theorem readLoop_overrun (s : σ) (hi : i ≤ buf.length) (h : buf.length < i + n) :
    readLoop bus t n i buf s = none := by
  induction n generalizing i buf s with
  | zero => omega
  | succ n ih =>
    rw [readLoop]
    dsimp only
    rcases Nat.lt_or_eq_of_le hi with hlt | rfl
    · have hset : Block.set buf i (readByte bus t false s).1 =
          some (buf.set i (readByte bus t false s).1) := if_pos hlt
      rw [hset, Option.bind_eq_bind, Option.bind_some]
      exact ih _ (by rw [List.length_set]; omega) (by rw [List.length_set]; omega)
    · rw [Block.set, if_neg (Nat.lt_irrefl _)]
      rfl

/-- The length less one. -/
theorem toNat_pred (h : len ≠ 0) : (len - 1).toNat + 1 = len.toNat := by
  have hpos : 1 ≤ len := UInt32.le_iff_toNat_le.mpr
    (Nat.one_le_iff_ne_zero.mpr fun hzero => h (UInt32.toNat_inj.mp hzero))
  have hle : 1 ≤ len.toNat := UInt32.le_iff_toNat_le.mp hpos
  rw [UInt32.toNat_sub_of_le len 1 hpos]
  exact Nat.sub_add_cancel hle

/-- What a device that answers is read with. -/
theorem readFrom_of_answers (buf : List UInt8) (len : UInt32) (sendStop : Bool) {s : σ}
    (h : answers bus t address s = true) :
    ∃ s₁, readFrom bus t address buf len sendStop s =
      (readLoop bus t (len - 1).toNat 0 buf s₁).bind fun r =>
        (Block.set r.1 (len - 1).toNat (readByte bus t true r.2).1).bind fun b =>
          some (0, b, clockOut bus t 10
            (stopIf bus t sendStop (readByte bus t true r.2).2)) := by
  obtain ⟨hfree, hack⟩ := Bool.and_eq_true_iff.mp h
  refine ⟨(writeByte bus t (address <<< 1 ||| 1) (writeStart bus t s).2).2, ?_⟩
  rw [readFrom]
  dsimp only
  rw [if_pos hfree, if_pos hack]
  rfl

/-- No answer, and nothing is read. -/
theorem readFrom_of_not_answers (buf : List UInt8) (len : UInt32) (sendStop : Bool) {s : σ}
    (h : answers bus t address s = false) :
    ∃ ret s₁, readFrom bus t address buf len sendStop s = some (ret, buf, s₁) := by
  rw [readFrom]
  dsimp only
  split
  · rename_i hfree
    rw [answers, hfree, Bool.true_and] at h
    rw [if_neg (by rw [h]; exact Bool.false_ne_true)]
    exact ⟨_, _, rfl⟩
  · exact ⟨_, _, rfl⟩

/-- **A read stays inside**, unless no bytes are asked of a device that answers. -/
theorem readFrom_isSome_iff (sendStop : Bool) (s : σ) (hbuf : buf.length < 2 ^ 32 - 1)
    (hlen : len.toNat ≤ buf.length) :
    (∃ r, readFrom bus t address buf len sendStop s = some r) ↔
      (len = 0 → answers bus t address s = false) := by
  cases hanswers : answers bus t address s with
  | false =>
    obtain ⟨ret, s₁, hread⟩ := readFrom_of_not_answers buf len sendStop hanswers
    exact ⟨fun _ _ => rfl, fun _ => ⟨_, hread⟩⟩
  | true =>
    obtain ⟨s₁, hread⟩ := readFrom_of_answers buf len sendStop hanswers
    rw [hread]
    constructor
    · rintro ⟨r, hr⟩ rfl
      have hnone : readLoop bus t ((0 : UInt32) - 1).toNat 0 buf s₁ = none :=
        readLoop_overrun s₁ (Nat.zero_le _) (by rw [Nat.zero_add]; exact hbuf)
      rw [hnone] at hr
      cases hr
    · intro hzero
      have hne : len ≠ 0 := fun h => Bool.false_ne_true (hzero h).symm
      have hpred := toNat_pred hne
      obtain ⟨r, hr⟩ := exists_readLoop bus t s₁
        (by omega : 0 + (len - 1).toNat ≤ buf.length)
      have hlength := (readLoop_frame hr).1
      rw [hr, Option.bind_some, Block.set, if_pos (by omega)]
      exact ⟨_, rfl⟩

/-- **It writes the bytes it is asked for**, and no other ones. -/
theorem readFrom_frame {sendStop : Bool} {s : σ} {r : UInt8 × List UInt8 × σ}
    (h : readFrom bus t address buf len sendStop s = some r)
    (hzero : len = 0 → answers bus t address s = false) :
    r.2.1.length = buf.length ∧ r.2.1.drop len.toNat = buf.drop len.toNat := by
  cases hanswers : answers bus t address s with
  | false =>
    obtain ⟨ret, s₁, hread⟩ := readFrom_of_not_answers buf len sendStop hanswers
    obtain rfl := Option.some.inj (hread.symm.trans h)
    exact ⟨rfl, rfl⟩
  | true =>
    have hne : len ≠ 0 := fun h => Bool.false_ne_true ((hzero h).symm.trans hanswers)
    have hpred := toNat_pred hne
    obtain ⟨s₁, hread⟩ := readFrom_of_answers buf len sendStop hanswers
    rw [hread] at h
    obtain ⟨r₁, hr₁, hset⟩ := Option.bind_eq_some_iff.mp h
    obtain ⟨b, hb, hr⟩ := Option.bind_eq_some_iff.mp hset
    obtain rfl := Option.some.inj hr
    obtain ⟨hlength, hdrop⟩ := readLoop_frame hr₁
    refine ⟨(Block.length_of_set hb).trans hlength, ?_⟩
    show b.drop len.toNat = buf.drop len.toNat
    rw [Nat.zero_add] at hdrop
    rw [Block.drop_of_set hb (by omega), ← hpred, ← List.drop_drop, hdrop, List.drop_drop]

end Twi

/-- **`TwoWire`**, with the lines that it uses. -/
structure TwoWire (σ : Type) where
  bus : σ
  timing : Twi.Timing
  /-- `default_sda_pin` and `default_scl_pin`. -/
  defaultPins : Int32 × Int32
  rxBuffer : List UInt8
  rxBufferIndex : UInt8
  rxBufferLength : UInt8
  txAddress : UInt8
  txBuffer : List UInt8
  txBufferIndex : UInt8
  txBufferLength : UInt8
  transmitting : Bool
  writeError : Bool

namespace TwoWire

variable {σ : Type} (bus : Twi.Bus σ)

/-- `BUFFER_LENGTH`. -/
def bufferLength : ℕ := 32

/-- At the start of the program. -/
def initial (s : σ) (t : Twi.Timing) (pins : Int32 × Int32) : TwoWire σ :=
  ⟨s, t, pins, List.replicate bufferLength 0, 0, 0, 0, List.replicate bufferLength 0, 0,
    0, false, false⟩

/-- `flush`. -/
def flush (w : TwoWire σ) : TwoWire σ :=
  { w with rxBufferIndex := 0, rxBufferLength := 0, txBufferIndex := 0, txBufferLength := 0 }

/-- `begin(sda, scl)`. -/
def beginPins (sda scl : Int32) (w : TwoWire σ) : TwoWire σ :=
  flush { w with
    defaultPins := (sda, scl)
    bus := bus.init sda.toUInt32.toUInt8 scl.toUInt32.toUInt8 w.bus
    timing := w.timing.setClock 100000 }

/-- `begin()`, and the overloads that are given an address and leave it out. -/
def «begin» (w : TwoWire σ) : TwoWire σ := beginPins bus w.defaultPins.1 w.defaultPins.2 w

/-- `requestFrom(uint8_t, size_t, bool)`. -/
def requestFromSize (address : UInt8) (size : UInt32) (sendStop : Bool) (w : TwoWire σ) :
    Option (UInt32 × TwoWire σ) := do
  let size := if size.toNat > bufferLength then UInt32.ofNat bufferLength else size
  let (ret, rxBuffer, s) ← Twi.readFrom bus w.timing address w.rxBuffer size sendStop w.bus
  let read := if ret = 0 then size else 0
  return (read, { w with
    bus := s, rxBuffer := rxBuffer, rxBufferIndex := 0, rxBufferLength := read.toUInt8 })

/-- `requestFrom(uint8_t, uint8_t, uint8_t)`. -/
def requestFromStop (address quantity sendStop : UInt8) (w : TwoWire σ) :=
  requestFromSize bus address quantity.toUInt32 (sendStop != 0) w

/-- `requestFrom(uint8_t, uint8_t)`. -/
def requestFrom (address quantity : UInt8) (w : TwoWire σ) :=
  requestFromSize bus address quantity.toUInt32 true w

/-- `requestFrom(int, int)`. -/
def requestFromInt (address quantity : Int32) (w : TwoWire σ) :=
  requestFromSize bus address.toUInt32.toUInt8 quantity.toUInt32 true w

/-- `requestFrom(int, int, int)`. -/
def requestFromIntStop (address quantity sendStop : Int32) (w : TwoWire σ) :=
  requestFromSize bus address.toUInt32.toUInt8 quantity.toUInt32 (sendStop != 0) w

/-- `beginTransmission(uint8_t)`. -/
def beginTransmission (address : UInt8) (w : TwoWire σ) : TwoWire σ :=
  { w with transmitting := true, txAddress := address, txBufferIndex := 0, txBufferLength := 0 }

/-- `endTransmission(uint8_t)`. -/
def endTransmission (sendStop : UInt8) (w : TwoWire σ) : Option (UInt8 × TwoWire σ) := do
  let (ret, s) ← Twi.writeTo bus w.timing w.txAddress w.txBuffer w.txBufferLength.toUInt32
    (sendStop != 0) w.bus
  return (ret, { w with
    bus := s, txBufferIndex := 0, txBufferLength := 0, transmitting := false })

/-- `write(uint8_t)`. -/
def write (data : UInt8) (w : TwoWire σ) : Option (UInt32 × TwoWire σ) :=
  if w.transmitting then
    if bufferLength ≤ w.txBufferLength.toNat then some (0, { w with writeError := true })
    else do
      let txBuffer ← Block.set w.txBuffer w.txBufferIndex.toNat data
      return (1, { w with
        txBuffer := txBuffer
        txBufferIndex := w.txBufferIndex + 1
        txBufferLength := w.txBufferIndex + 1 })
  else some (1, w)

/-- The loop of `write(const uint8_t *, size_t)`. -/
def writeLoop : List UInt8 → UInt32 → TwoWire σ → Option (UInt32 × TwoWire σ)
  | [], i, w => some (i, w)
  | b :: data, i, w => do
    let (n, w) ← write b w
    if n = 0 then return (i, w) else writeLoop data (i + 1) w

/-- `write(const uint8_t *, size_t)`. -/
def writeBlock (data : List UInt8) (w : TwoWire σ) : Option (UInt32 × TwoWire σ) :=
  if w.transmitting then writeLoop data 0 w else some (UInt32.ofNat data.length, w)

/-- `available`. -/
def available (w : TwoWire σ) : ℤ := (w.rxBufferLength.toNat : ℤ) - w.rxBufferIndex.toNat

/-- `read`. -/
def read (w : TwoWire σ) : Option (ℤ × TwoWire σ) :=
  if w.rxBufferIndex < w.rxBufferLength then do
    let value ← w.rxBuffer[w.rxBufferIndex.toNat]?
    return (value.toNat, { w with rxBufferIndex := w.rxBufferIndex + 1 })
  else some (-1, w)

/-- `peek`. -/
def peek (w : TwoWire σ) : Option ℤ :=
  if w.rxBufferIndex < w.rxBufferLength then do
    let value ← w.rxBuffer[w.rxBufferIndex.toNat]?
    return value.toNat
  else some (-1)

/-- **The calls**, every overload one of its own. -/
inductive Call
  | beginPins (sda scl : Int32)
  | «begin»
  | beginAddress (address : UInt8)
  | beginInt (address : Int32)
  | beginTransmission (address : UInt8)
  | beginTransmissionInt (address : Int32)
  | write (data : UInt8)
  | writeBlock (data : List UInt8)
  | endTransmission
  | endTransmissionStop (sendStop : UInt8)
  | requestFromSize (address : UInt8) (size : UInt32) (sendStop : Bool)
  | requestFromStop (address quantity sendStop : UInt8)
  | requestFrom (address quantity : UInt8)
  | requestFromInt (address quantity : Int32)
  | requestFromIntStop (address quantity sendStop : Int32)
  | read
  | peek
  | available
  | flush

/-- **What a call does**; there is no result if it leaves a buffer. -/
def call (w : TwoWire σ) : Call → Option (TwoWire σ)
  | .beginPins sda scl => some (beginPins bus sda scl w)
  | .begin => some (w.begin bus)
  | .beginAddress _ => some (w.begin bus)
  | .beginInt _ => some (w.begin bus)
  | .beginTransmission address => some (beginTransmission address w)
  | .beginTransmissionInt address => some (beginTransmission address.toUInt32.toUInt8 w)
  | .write data => (write data w).map Prod.snd
  | .writeBlock data => (writeBlock data w).map Prod.snd
  | .endTransmission => (endTransmission bus 1 w).map Prod.snd
  | .endTransmissionStop sendStop => (endTransmission bus sendStop w).map Prod.snd
  | .requestFromSize address size sendStop =>
    (requestFromSize bus address size sendStop w).map Prod.snd
  | .requestFromStop address quantity sendStop =>
    (requestFromStop bus address quantity sendStop w).map Prod.snd
  | .requestFrom address quantity => (requestFrom bus address quantity w).map Prod.snd
  | .requestFromInt address quantity => (requestFromInt bus address quantity w).map Prod.snd
  | .requestFromIntStop address quantity sendStop =>
    (requestFromIntStop bus address quantity sendStop w).map Prod.snd
  | .read => w.read.map Prod.snd
  | .peek => w.peek.map fun _ => w
  | .available => some w
  | .flush => some w.flush

/-- **`Wire` as a machine.** -/
def machine : Machine (TwoWire σ) Call := ⟨call bus⟩

/-! ## What holds after every call -/

/-- **The buffers and their indices.** -/
structure InBounds (w : TwoWire σ) : Prop where
  rxBuffer : w.rxBuffer.length = bufferLength
  txBuffer : w.txBuffer.length = bufferLength
  rxIndex : w.rxBufferIndex ≤ w.rxBufferLength
  rxLength : w.rxBufferLength.toNat ≤ bufferLength
  txIndex : w.txBufferIndex = w.txBufferLength
  txLength : w.txBufferLength.toNat ≤ bufferLength

variable {bus} {w : TwoWire σ}

theorem inBounds_initial (s : σ) (t : Twi.Timing) (pins : Int32 × Int32) :
    InBounds (initial s t pins) :=
  ⟨List.length_replicate, List.length_replicate, UInt8.le_refl _, Nat.zero_le _,
    rfl, Nat.zero_le _⟩

theorem InBounds.flush (h : InBounds w) : InBounds w.flush :=
  ⟨h.rxBuffer, h.txBuffer, UInt8.le_refl _, Nat.zero_le _, rfl, Nat.zero_le _⟩

theorem InBounds.beginPins (h : InBounds w) (sda scl : Int32) :
    InBounds (w.beginPins bus sda scl) :=
  ⟨h.rxBuffer, h.txBuffer, UInt8.le_refl _, Nat.zero_le _, rfl, Nat.zero_le _⟩

theorem InBounds.beginTransmission (h : InBounds w) (address : UInt8) :
    InBounds (w.beginTransmission address) :=
  ⟨h.rxBuffer, h.txBuffer, h.rxIndex, h.rxLength, rfl, Nat.zero_le _⟩

/-- **A byte is put down** if there is room. -/
theorem InBounds.write (h : InBounds w) (data : UInt8) :
    ∃ r, TwoWire.write data w = some r ∧ InBounds r.2 := by
  unfold TwoWire.write
  split
  · split
    · exact ⟨_, rfl, h.rxBuffer, h.txBuffer, h.rxIndex, h.rxLength, h.txIndex, h.txLength⟩
    · rename_i hroom
      rw [Nat.not_le, ← h.txIndex] at hroom
      have hset : Block.set w.txBuffer w.txBufferIndex.toNat data =
          some (w.txBuffer.set w.txBufferIndex.toNat data) := if_pos (h.txBuffer.symm ▸ hroom)
      rw [hset, Option.bind_eq_bind, Option.bind_some]
      refine ⟨_, rfl, h.rxBuffer, ?_, h.rxIndex, h.rxLength, rfl, ?_⟩
      · exact List.length_set.trans h.txBuffer
      · show (w.txBufferIndex + 1).toNat ≤ bufferLength
        unfold bufferLength at hroom ⊢
        rw [UInt8.toNat_add]
        exact (Nat.mod_le _ _).trans hroom
  · exact ⟨_, rfl, h⟩

theorem InBounds.writeLoop (h : InBounds w) (data : List UInt8) (i : UInt32) :
    ∃ r, TwoWire.writeLoop data i w = some r ∧ InBounds r.2 := by
  induction data generalizing i w with
  | nil => exact ⟨_, rfl, h⟩
  | cons b data ih =>
    obtain ⟨r, hr, hr'⟩ := h.write b
    rw [TwoWire.writeLoop, hr, Option.bind_eq_bind, Option.bind_some]
    dsimp only
    split
    · exact ⟨_, rfl, hr'⟩
    · exact ih hr' (i + 1)

theorem InBounds.writeBlock (h : InBounds w) (data : List UInt8) :
    ∃ r, TwoWire.writeBlock data w = some r ∧ InBounds r.2 := by
  unfold TwoWire.writeBlock
  split
  · exact h.writeLoop data 0
  · exact ⟨_, rfl, h⟩

theorem InBounds.endTransmission (h : InBounds w) (sendStop : UInt8) :
    ∃ r, TwoWire.endTransmission bus sendStop w = some r ∧ InBounds r.2 := by
  have hlen : w.txBufferLength.toUInt32.toNat ≤ w.txBuffer.length := by
    rw [UInt8.toNat_toUInt32, h.txBuffer]
    exact h.txLength
  obtain ⟨r, hr⟩ := Twi.exists_writeTo bus w.timing w.txAddress (sendStop != 0) w.bus hlen
  rw [TwoWire.endTransmission, hr, Option.bind_eq_bind, Option.bind_some]
  exact ⟨_, rfl, h.rxBuffer, h.txBuffer, h.rxIndex, h.rxLength, rfl, Nat.zero_le _⟩

/-- What is in front of the length can be read. -/
theorem InBounds.getElem? (h : InBounds w) (hindex : w.rxBufferIndex < w.rxBufferLength) :
    ∃ value, w.rxBuffer[w.rxBufferIndex.toNat]? = some value := by
  have hlt : w.rxBufferIndex.toNat < w.rxBuffer.length := by
    rw [h.rxBuffer]
    exact (UInt8.lt_iff_toNat_lt.mp hindex).trans_le h.rxLength
  exact ⟨_, List.getElem?_eq_getElem hlt⟩

theorem InBounds.read (h : InBounds w) : ∃ r, w.read = some r ∧ InBounds r.2 := by
  unfold TwoWire.read
  split
  · rename_i hindex
    obtain ⟨value, hvalue⟩ := h.getElem? hindex
    rw [hvalue, Option.bind_eq_bind, Option.bind_some]
    refine ⟨_, rfl, h.rxBuffer, h.txBuffer, ?_, h.rxLength, h.txIndex, h.txLength⟩
    show w.rxBufferIndex + 1 ≤ w.rxBufferLength
    rw [UInt8.le_iff_toNat_le, UInt8.toNat_add]
    exact (Nat.mod_le _ _).trans (UInt8.lt_iff_toNat_lt.mp hindex)
  · exact ⟨_, rfl, h⟩

theorem InBounds.peek (h : InBounds w) : ∃ r, w.peek = some r := by
  unfold TwoWire.peek
  split
  · rename_i hindex
    obtain ⟨value, hvalue⟩ := h.getElem? hindex
    rw [hvalue]
    exact ⟨_, rfl⟩
  · exact ⟨_, rfl⟩

/-- **The size that a request is cut to.** -/
def cut (size : UInt32) : UInt32 :=
  if size.toNat > bufferLength then UInt32.ofNat bufferLength else size

theorem cut_le (size : UInt32) : (cut size).toNat ≤ bufferLength := by
  unfold cut
  split
  · exact Nat.le_refl _
  · exact Nat.le_of_not_lt ‹_›

theorem cut_eq_zero_iff {size : UInt32} : cut size = 0 ↔ size = 0 := by
  unfold cut
  split
  · rename_i hbig
    exact ⟨fun hfalse => absurd hfalse (by decide), fun hsize => by
      rw [hsize] at hbig
      exact absurd hbig (by decide)⟩
  · rfl

/-- When the read stays inside. -/
theorem InBounds.readFrom_iff (h : InBounds w) (address : UInt8) (size : UInt32)
    (sendStop : Bool) :
    (∃ r, Twi.readFrom bus w.timing address w.rxBuffer (cut size) sendStop w.bus = some r) ↔
      (size = 0 → Twi.answers bus w.timing address w.bus = false) := by
  rw [← (cut_eq_zero_iff : cut size = 0 ↔ size = 0)]
  exact Twi.readFrom_isSome_iff sendStop w.bus (by rw [h.rxBuffer]; decide)
    (h.rxBuffer.symm ▸ cut_le size)

/-- **A request stays inside**, unless no bytes are asked of a device that
answers. -/
theorem InBounds.requestFromSize (h : InBounds w) {address : UInt8} {size : UInt32}
    (hzero : size = 0 → Twi.answers bus w.timing address w.bus = false) (sendStop : Bool) :
    ∃ r, TwoWire.requestFromSize bus address size sendStop w = some r ∧ InBounds r.2 := by
  obtain ⟨r, hr⟩ := (h.readFrom_iff address size sendStop).mpr hzero
  have hlength := (Twi.readFrom_frame hr fun hcut => hzero (cut_eq_zero_iff.mp hcut)).1
  have hrequest : TwoWire.requestFromSize bus address size sendStop w =
      some (if r.1 = 0 then cut size else 0, { w with
        bus := r.2.2
        rxBuffer := r.2.1
        rxBufferIndex := 0
        rxBufferLength := (if r.1 = 0 then cut size else 0).toUInt8 }) := by
    rw [cut] at hr
    rw [TwoWire.requestFromSize, hr]
    rfl
  refine ⟨_, hrequest, hlength.trans h.rxBuffer, h.txBuffer, UInt8.le_iff_toNat_le.mpr
    (Nat.zero_le _), ?_, h.txIndex, h.txLength⟩
  show (if r.1 = 0 then cut size else 0).toUInt8.toNat ≤ bufferLength
  rw [UInt32.toNat_toUInt8]
  refine (Nat.mod_le _ _).trans ?_
  split
  · exact cut_le size
  · exact Nat.zero_le _

/-- **And if it does not, it leaves the buffer.** -/
theorem InBounds.answers_of_requestFromSize (h : InBounds w) {address : UInt8} {size : UInt32}
    {sendStop : Bool} {r : UInt32 × TwoWire σ}
    (hr : TwoWire.requestFromSize bus address size sendStop w = some r) :
    size = 0 → Twi.answers bus w.timing address w.bus = false := by
  rw [TwoWire.requestFromSize] at hr
  obtain ⟨r', hr', -⟩ := Option.bind_eq_some_iff.mp hr
  exact (h.readFrom_iff address size sendStop).mp ⟨r', hr'⟩

/-! ## Runs -/

/-- The address and the size of a request. -/
def Call.request : Call → Option (UInt8 × UInt32)
  | .requestFromSize address size _ => some (address, size)
  | .requestFromStop address quantity _ => some (address, quantity.toUInt32)
  | .requestFrom address quantity => some (address, quantity.toUInt32)
  | .requestFromInt address quantity => some (address.toUInt32.toUInt8, quantity.toUInt32)
  | .requestFromIntStop address quantity _ => some (address.toUInt32.toUInt8, quantity.toUInt32)
  | _ => none

/-- **A request for no bytes** goes to an address at which no device answers. -/
def Admitted (bus : Twi.Bus σ) (w : TwoWire σ) (c : Call) : Prop :=
  ∀ address, c.request = some (address, 0) → Twi.answers bus w.timing address w.bus = false

theorem admitted_of_request {c : Call} {address : UInt8} {size : UInt32}
    (hc : c.request = some (address, size)) :
    Admitted bus w c ↔ (size = 0 → Twi.answers bus w.timing address w.bus = false) := by
  unfold Admitted
  rw [hc]
  constructor
  · rintro h rfl
    exact h address rfl
  · intro h address' heq
    obtain ⟨rfl, rfl⟩ := Prod.mk.inj (Option.some.inj heq)
    exact h rfl

theorem admitted_of_not_request {c : Call} (hc : c.request = none) : Admitted bus w c := by
  intro address h
  rw [hc] at h
  cases h

/-- A result and what it leaves. -/
theorem exists_map_snd {α : Type} {o : Option (α × TwoWire σ)}
    (h : ∃ r, o = some r ∧ InBounds r.2) : ∃ t, o.map Prod.snd = some t ∧ InBounds t := by
  obtain ⟨r, rfl, hin⟩ := h
  exact ⟨r.2, rfl, hin⟩

/-- **One call.** -/
theorem InBounds.exists_call (h : InBounds w) {c : Call} (hc : Admitted bus w c) :
    ∃ t, call bus w c = some t ∧ InBounds t := by
  cases c with
  | beginPins sda scl => exact ⟨_, rfl, h.beginPins sda scl⟩
  | «begin» => exact ⟨_, rfl, h.beginPins _ _⟩
  | beginAddress => exact ⟨_, rfl, h.beginPins _ _⟩
  | beginInt => exact ⟨_, rfl, h.beginPins _ _⟩
  | beginTransmission address => exact ⟨_, rfl, h.beginTransmission address⟩
  | beginTransmissionInt => exact ⟨_, rfl, h.beginTransmission _⟩
  | write data => exact exists_map_snd (h.write data)
  | writeBlock data => exact exists_map_snd (h.writeBlock data)
  | endTransmission => exact exists_map_snd (h.endTransmission 1)
  | endTransmissionStop sendStop => exact exists_map_snd (h.endTransmission sendStop)
  | requestFromSize | requestFromStop | requestFrom | requestFromInt | requestFromIntStop =>
    exact exists_map_snd (h.requestFromSize ((admitted_of_request rfl).mp hc) _)
  | read => exact exists_map_snd h.read
  | peek =>
    obtain ⟨r, hr⟩ := h.peek
    refine ⟨w, ?_, h⟩
    rw [call, hr]
    rfl
  | available => exact ⟨w, rfl, h⟩
  | flush => exact ⟨_, rfl, h.flush⟩

theorem InBounds.admitted_of_call (h : InBounds w) {c : Call} {t : TwoWire σ}
    (hcall : call bus w c = some t) : Admitted bus w c := by
  cases c with
  | requestFromSize | requestFromStop | requestFrom | requestFromInt | requestFromIntStop =>
    obtain ⟨r, hr, -⟩ := Option.map_eq_some_iff.mp hcall
    exact (admitted_of_request rfl).mpr (h.answers_of_requestFromSize hr)
  | _ => exact admitted_of_not_request rfl

/-- **Every run**: no access is outside of a buffer, and the indices are where they
should be, if and only if no request for no bytes goes to a device that answers. And a
read writes the bytes it is asked for, and no other ones. -/
theorem runs_iff (bus : Twi.Bus σ) (s : σ) (t : Twi.Timing) (pins : Int32 × Int32)
    (calls : List Call) :
    ((∃ w, (machine bus).run (initial s t pins) calls = some w ∧ InBounds w) ↔
      (machine bus).Along (Admitted bus) (initial s t pins) calls) ∧
    ∀ address buf len sendStop s r,
      Twi.readFrom bus t address buf len sendStop s = some r →
      (len = 0 → Twi.answers bus t address s = false) →
      r.2.1.length = buf.length ∧ r.2.1.drop len.toNat = buf.drop len.toNat := by
  refine ⟨⟨?_, ?_⟩, fun address buf len sendStop s r => Twi.readFrom_frame⟩
  · rintro ⟨w, hrun, -⟩
    refine Machine.along_of_run (I := InBounds) (fun w c t hw hcall => ?_)
      (inBounds_initial _ _ _)
      hrun
    have hadmitted := hw.admitted_of_call hcall
    obtain ⟨t', ht', hin⟩ := hw.exists_call hadmitted
    obtain rfl := Option.some.inj (hcall.symm.trans ht')
    exact ⟨hadmitted, hin⟩
  · exact Machine.exists_run_of_along (fun w c hw hc => hw.exists_call hc)
      (inBounds_initial _ _ _)

/-- A device that answers to every address: the line is high when it is looked at
first, and low from then on. -/
def eager : Twi.Bus Bool :=
  ⟨fun _ _ s => s, id, id, fun s => (!s, true), id, id, fun s => (true, s), fun _ s => s⟩

/-- No bytes are asked of it. -/
theorem not_runs_eager :
    ¬ ∀ (σ : Type) (bus : Twi.Bus σ) (s : σ) (t : Twi.Timing) (pins : Int32 × Int32)
      (calls : List Call),
      ∃ w, (machine bus).run (initial s t pins) calls = some w ∧ InBounds w := by
  intro h
  obtain ⟨w, hrun, -⟩ := h Bool eager false ⟨true, 19⟩ (4, 5) [.begin, .requestFrom 0x68 0]
  obtain ⟨u, hbegin, hrest⟩ := (Machine.run_cons_eq_some _).mp hrun
  obtain ⟨v, hrequest, -⟩ := (Machine.run_cons_eq_some _).mp hrest
  have hin : InBounds u := Option.some.inj hbegin ▸ (inBounds_initial _ _ _).beginPins _ _
  have hcall : call eager u (.requestFrom 0x68 0) = some v := hrequest
  have hanswers := hin.admitted_of_call hcall 0x68 rfl
  rw [← Option.some.inj hbegin] at hanswers
  exact absurd hanswers (by decide)

end TwoWire
