import Mathlib.Data.List.Basic
import Mathlib.Data.UInt

/-!
# What is heard on two wires

A bus of a clock and a data line is watched by the levels of the two lines, one
pair behind the other. While the clock is high, a change of the data line is a
start or a stop; a pulse of the clock without one is a bit, which is complete when
the clock falls (`BusMonitor.see`). Eight bits and an acknowledgement are a byte
(`BusMonitor.items`).

Nothing is assumed of the levels: a data line that moves at the wrong time is heard
as a start or a stop that was not meant. So to say that a transfer is heard as it
should is to say that there are no others.
-/

/-- The levels of the two lines. -/
structure Line where
  sda : Bool
  scl : Bool
  deriving DecidableEq

/-- **What the lines say.** -/
inductive WireSymbol
  | start
  | bit (b : Bool)
  | stop
  deriving DecidableEq

/-- **Somebody who watches**: the last levels, the bit of this pulse of the clock,
and what was heard before. -/
structure BusMonitor where
  line : Line
  sampled : Option Bool
  symbols : List WireSymbol

namespace BusMonitor

/-- Both lines are high. -/
def idle : BusMonitor := ⟨⟨true, true⟩, none, []⟩

/-- **What was heard** if the clock falls now. -/
def heard (m : BusMonitor) : List WireSymbol := m.symbols ++ m.sampled.toList.map WireSymbol.bit

/-- **The next levels.** -/
def see (m : BusMonitor) (l : Line) : BusMonitor :=
  if m.line.scl then
    if l.scl then
      if m.line.sda = l.sda then { m with line := l }
      else ⟨l, none, m.symbols ++ [if l.sda then WireSymbol.stop else WireSymbol.start]⟩
    else ⟨l, none, m.heard⟩
  else ⟨l, if l.scl then some l.sda else none, m.symbols⟩

/-- Behind a list of levels. -/
def watch (trace : List Line) : BusMonitor := trace.foldl see idle

/-- **What a list of levels says.** -/
def decode (trace : List Line) : List WireSymbol := (watch trace).symbols

theorem watch_append (trace : List Line) (l : Line) :
    watch (trace ++ [l]) = see (watch trace) l := by
  rw [watch, List.foldl_append]
  rfl

/-! ## Bytes -/

/-- The bits of a byte, the highest one first. -/
def bits (b : UInt8) : List Bool :=
  [b.toNat.testBit 7, b.toNat.testBit 6, b.toNat.testBit 5, b.toNat.testBit 4,
    b.toNat.testBit 3, b.toNat.testBit 2, b.toNat.testBit 1, b.toNat.testBit 0]

/-- The byte of some bits. -/
def byteOf (l : List Bool) : UInt8 := l.foldl (fun v b => v <<< 1 ||| b.toUInt8) 0

/-- **A transfer**, in whole bytes. -/
inductive Item
  | start
  | byte (b : UInt8) (ack : Bool)
  | stop
  deriving DecidableEq

/-- What is heard of it; an acknowledgement is a low level. -/
def Item.symbols : Item → List WireSymbol
  | .start => [.start]
  | .byte b ack => (bits b).map .bit ++ [.bit (!ack)]
  | .stop => [.stop]

/-- **The transfer that was heard**, unless there is an incomplete byte in it. -/
def items : List WireSymbol → Option (List Item)
  | [] => some []
  | .start :: l => (items l).map (.start :: ·)
  | .stop :: l => (items l).map (.stop :: ·)
  | .bit b₇ :: .bit b₆ :: .bit b₅ :: .bit b₄ :: .bit b₃ :: .bit b₂ :: .bit b₁ :: .bit b₀ ::
      .bit nack :: l =>
    (items l).map (.byte (byteOf [b₇, b₆, b₅, b₄, b₃, b₂, b₁, b₀]) (!nack) :: ·)
  | _ => none

theorem byteOf_bits (b : UInt8) : byteOf (bits b) = b := by
  have hall : ∀ b : Fin 256, byteOf (bits (UInt8.ofFin b)) = UInt8.ofFin b := by decide +kernel
  exact hall b.toFin

theorem items_append (i : Item) (l : List WireSymbol) :
    items (i.symbols ++ l) = (items l).map (i :: ·) := by
  cases i with
  | start => rfl
  | stop => rfl
  | byte b ack =>
    have hbyte := byteOf_bits b
    unfold bits at hbyte
    simp only [Item.symbols, bits, List.map_cons, List.map_nil,
      List.cons_append, List.nil_append, items, hbyte, Bool.not_not]

/-- **A transfer is heard as it is.** -/
theorem items_flatMap (l : List Item) : items (l.flatMap Item.symbols) = some l := by
  induction l with
  | nil => rfl
  | cons i l ih => rw [List.flatMap_cons, items_append, ih, Option.map_some]

end BusMonitor
