import Esp31b.Block

/-!
# I2C by software

The two lines are pins that are pulled low or released, and read back. What is at
their other end is not part of this: a `Twi.Bus` is anything that takes the changes
and answers the reads, so what is shown of the routines over any bus is true
whatever the slave does.

All waiting is bounded, by the turns that a clock may be stretched and by the ten
pulses behind a transfer, so every routine comes to an end. Accesses to the buffer
of the caller have no result outside of it.
-/

namespace Twi

/-- **The two lines** as the routines use them. -/
structure Bus (σ : Type) where
  /-- `pinMode` of both pins. -/
  init : UInt8 → UInt8 → σ → σ
  sdaLow : σ → σ
  sdaHigh : σ → σ
  sdaRead : σ → Bool × σ
  sclLow : σ → σ
  sclHigh : σ → σ
  sclRead : σ → Bool × σ
  /-- `twi_delay`. -/
  delay : UInt8 → σ → σ

/-- The clock of the processor, 80 MHz or not, and `twi_dcount`. -/
structure Timing where
  fcpu80 : Bool
  dcount : UInt8

/-- `TWI_CLOCK_STRETCH`. -/
def Timing.clockStretch (t : Timing) : ℕ := if t.fcpu80 then 800 else 1600

/-- `twi_setClock`. -/
def Timing.setClock (t : Timing) (freq : UInt32) : Timing :=
  if t.fcpu80 then
    { t with dcount :=
        if freq ≤ 100000 then 19
        else if freq ≤ 200000 then 8
        else if freq ≤ 300000 then 3
        else 1 }
  else
    { t with dcount :=
        if freq ≤ 100000 then 32
        else if freq ≤ 200000 then 14
        else if freq ≤ 300000 then 8
        else if freq ≤ 400000 then 5
        else if freq ≤ 500000 then 3
        else if freq ≤ 600000 then 2
        else 1 }

variable {σ : Type} (bus : Bus σ) (t : Timing)

/-- `while (SCL_READ() == 0 && (i++) < TWI_CLOCK_STRETCH);` -/
def stretch : ℕ → σ → σ
  | 0, s => (bus.sclRead s).2
  | turns + 1, s =>
    let (level, s) := bus.sclRead s
    if level then s else stretch turns s

/-- `twi_write_start`. -/
def writeStart (s : σ) : Bool × σ :=
  let s := bus.sclHigh s
  let s := bus.sdaHigh s
  let (level, s) := bus.sdaRead s
  if level then
    let s := bus.delay t.dcount s
    let s := bus.sdaLow s
    (true, bus.delay t.dcount s)
  else (false, s)

/-- `twi_write_stop`. -/
def writeStop (s : σ) : σ :=
  let s := bus.sclLow s
  let s := bus.sdaLow s
  let s := bus.delay t.dcount s
  let s := bus.sclHigh s
  let s := stretch bus t.clockStretch s
  let s := bus.delay t.dcount s
  let s := bus.sdaHigh s
  bus.delay t.dcount s

/-- `twi_write_bit`. -/
def writeBit (bit : Bool) (s : σ) : σ :=
  let s := bus.sclLow s
  let s := if bit then bus.sdaHigh s else bus.sdaLow s
  let s := bus.delay (t.dcount + 1) s
  let s := bus.sclHigh s
  let s := stretch bus t.clockStretch s
  bus.delay t.dcount s

/-- `twi_read_bit`. -/
def readBit (s : σ) : Bool × σ :=
  let s := bus.sclLow s
  let s := bus.sdaHigh s
  let s := bus.delay (t.dcount + 2) s
  let s := bus.sclHigh s
  let s := stretch bus t.clockStretch s
  let (bit, s) := bus.sdaRead s
  (bit, bus.delay t.dcount s)

/-- The loop of `twi_write_byte`. -/
def writeBits : ℕ → UInt8 → σ → σ
  | 0, _, s => s
  | n + 1, byte, s => writeBits n (byte <<< 1) (writeBit bus t (byte &&& 0x80 != 0) s)

/-- `twi_write_byte`: whether it was acknowledged. -/
def writeByte (byte : UInt8) (s : σ) : Bool × σ :=
  let s := writeBits bus t 8 byte s
  let (bit, s) := readBit bus t s
  (!bit, s)

/-- The loop of `twi_read_byte`. -/
def readBits : ℕ → UInt8 → σ → UInt8 × σ
  | 0, byte, s => (byte, s)
  | n + 1, byte, s =>
    let (bit, s) := readBit bus t s
    readBits n (byte <<< 1 ||| bit.toUInt8) s

/-- `twi_read_byte`. -/
def readByte (nack : Bool) (s : σ) : UInt8 × σ :=
  let (byte, s) := readBits bus t 8 0 s
  (byte, writeBit bus t nack s)

/-- The pulses behind a transfer, while the line is held low. -/
def clockOut : ℕ → σ → σ
  | 0, s => (bus.sdaRead s).2
  | turns + 1, s =>
    let (level, s) := bus.sdaRead s
    if level then s
    else
      let s := bus.sclLow s
      let s := bus.delay t.dcount s
      let s := bus.sclHigh s
      clockOut turns (bus.delay t.dcount s)

/-- The loop of `twi_writeTo`: whether all were acknowledged. -/
def writeLoop (buf : List UInt8) : ℕ → ℕ → σ → Option (Bool × σ)
  | 0, _, s => some (true, s)
  | n + 1, i, s => do
    let byte ← buf[i]?
    let (ack, s) := writeByte bus t byte s
    if ack then writeLoop buf n (i + 1) s else return (false, s)

/-- What a transfer ends with, if it is asked for. -/
def stopIf (sendStop : Bool) (s : σ) : σ := if sendStop then writeStop bus t s else s

/-- `twi_writeTo`. -/
def writeTo (address : UInt8) (buf : List UInt8) (len : UInt32) (sendStop : Bool) (s : σ) :
    Option (UInt8 × σ) :=
  let (free, s) := writeStart bus t s
  if free then
    let (ack, s) := writeByte bus t (address <<< 1 ||| 0) s
    if ack then do
      let (ack, s) ← writeLoop bus t buf len.toNat 0 s
      if ack then return (0, clockOut bus t 10 (stopIf bus t sendStop s))
      else return (3, stopIf bus t sendStop s)
    else some (2, stopIf bus t sendStop s)
  else some (4, s)

/-- The loop of `twi_readFrom`. -/
def readLoop : ℕ → ℕ → List UInt8 → σ → Option (List UInt8 × σ)
  | 0, _, buf, s => some (buf, s)
  | n + 1, i, buf, s => do
    let (byte, s) := readByte bus t false s
    let buf ← Block.set buf i byte
    readLoop n (i + 1) buf s

/-- `twi_readFrom`: what it returns, and the buffer. -/
def readFrom (address : UInt8) (buf : List UInt8) (len : UInt32) (sendStop : Bool) (s : σ) :
    Option (UInt8 × List UInt8 × σ) :=
  let (free, s) := writeStart bus t s
  if free then
    let (ack, s) := writeByte bus t (address <<< 1 ||| 1) s
    if ack then do
      let (buf, s) ← readLoop bus t (len - 1).toNat 0 buf s
      let (byte, s) := readByte bus t true s
      let buf ← Block.set buf (len - 1).toNat byte
      return (0, buf, clockOut bus t 10 (stopIf bus t sendStop s))
    else some (2, buf, stopIf bus t sendStop s)
  else some (4, buf, s)

end Twi
