import Esp31b.BusMonitor
import Esp31b.Si2c

/-!
# The trace of a transfer

The lines of `Twi.wired` are driven by two: a line is high if neither pulls it low.
The slave never holds the clock. It moves the data line as it likes, any number of
times, but only while the clock is low, and when the clock rises it is at the level
that its part in the transfer asks for: it acknowledges its address and the bytes
it is sent, sends its own bytes bit by bit, and lets go of the line otherwise.

Everything that a routine does is said by what was heard before and after it
(`Twi.Clocked`), for a bit, then for a byte, then for a buffer. No level of a line
is looked at above the bits. Both transfers are heard exactly as they should
(`Twi.transfers_heard`), so no other start or stop is.
-/

namespace Twi

open BusMonitor

/-- **Where a slave is** in a transfer. -/
inductive Phase
  /-- It is not addressed. -/
  | idle
  /-- The bits of the first byte so far. -/
  | address (bits : List Bool)
  | acknowledge (reading : Bool)
  /-- So many bits of a byte were received. -/
  | receive (n : ℕ)
  | acknowledgeByte
  /-- So many bits of its byte `k` were sent. -/
  | send (k n : ℕ)
  /-- The master acknowledges byte `k`, or not. -/
  | listen (k : ℕ)
  deriving DecidableEq

/-- **A slave**: its address, the bytes it has to send, and the levels it goes
through on its own when the lines have been through these. -/
structure Slave where
  address : UInt8
  data : ℕ → UInt8
  moves : List Line → List Bool

namespace Slave

variable (slave : Slave)

/-- What it hears takes it to the next phase. -/
def hear : Phase → WireSymbol → Phase
  | _, .start => .address []
  | _, .stop => .idle
  | .idle, .bit _ => .idle
  | .address l, .bit b =>
    if l.length < 7 then .address (l ++ [b])
    else if byteOf (l ++ [b]) >>> 1 = slave.address then .acknowledge b
    else .idle
  | .acknowledge reading, .bit _ => if reading then .send 0 0 else .receive 0
  | .receive n, .bit _ => if n < 7 then .receive (n + 1) else .acknowledgeByte
  | .acknowledgeByte, .bit _ => .receive 0
  | .send k n, .bit _ => if n < 7 then .send k (n + 1) else .listen k
  | .listen k, .bit b => if b then .idle else .send (k + 1) 0

/-- Its phase when this was heard. -/
def phase (h : List WireSymbol) : Phase := h.foldl slave.hear .idle

/-- **The level it is at when the clock rises**: it lets go of the line but to
acknowledge and to send a low bit. -/
def level : Phase → Bool
  | .acknowledge _ => false
  | .acknowledgeByte => false
  | .send k n => (bits (slave.data k)).getD n true
  | _ => true

end Slave

/-! ## The two lines -/

/-- **What the two drive**, low or not, and the levels so far. -/
structure Wired where
  sda : Bool
  scl : Bool
  slave : Bool
  trace : List Line

namespace Wired

/-- Nobody pulls a line low. -/
def idle : Wired := ⟨true, true, true, []⟩

/-- The levels of the lines. -/
def line (w : Wired) : Line := ⟨w.sda && w.slave, w.scl⟩

/-- They are seen. -/
def record (w : Wired) : Wired := { w with trace := w.trace ++ [w.line] }

/-- The slave moves. -/
def move (w : Wired) (level : Bool) : Wired := record { w with slave := level }

/-- The master pulls the data line low, or lets go of it. -/
def setSda (w : Wired) (b : Bool) : Wired := record { w with sda := b }

/-- And the clock. -/
def setScl (w : Wired) (b : Bool) : Wired := record { w with scl := b }

end Wired

namespace Slave

variable (slave : Slave)

/-- It moves as it likes while the clock is low. -/
def wander (w : Wired) : Wired :=
  if w.scl then w else (slave.moves w.trace).foldl Wired.move w

/-- Before the clock rises it is where it has to be. -/
def settle (w : Wired) : Wired :=
  if w.scl then w else w.move (slave.level (slave.phase (decode w.trace)))

end Slave

/-- **A bus with a slave.** -/
def wired (slave : Slave) : Bus Wired where
  init _ _ w := slave.wander ((w.setSda true).setScl true)
  sdaLow w := slave.wander (w.setSda false)
  sdaHigh w := slave.wander (w.setSda true)
  sdaRead w := (w.line.sda, w)
  sclLow w := slave.wander (w.setScl false)
  sclHigh w := (slave.settle w).setScl true
  sclRead w := (w.line.scl, w)
  delay _ w := slave.wander w

/-! ## Changes of a line -/

/-- **The clock is low**, this was heard, and the master lets go of the data line or
not. -/
structure Low (w : Wired) (h : List WireSymbol) (sda : Bool) : Prop where
  scl : w.scl = false
  sda : w.sda = sda
  watched : watch w.trace = ⟨w.line, none, h⟩

/-- **The clock is high**, this was heard before this pulse and this in it, and the
two let go of the data line or not. -/
structure High (w : Wired) (h : List WireSymbol) (sampled : Option Bool) (sda slave : Bool) :
    Prop where
  scl : w.scl = true
  sda : w.sda = sda
  slave : w.slave = slave
  watched : watch w.trace = ⟨w.line, sampled, h⟩

/-- **The clock is high**, and this will have been heard when it falls. -/
structure Clocked (w : Wired) (h : List WireSymbol) : Prop where
  scl : w.scl = true
  line : (watch w.trace).line = w.line
  heard : (watch w.trace).heard = h

variable (slave : Slave) {t : Timing} {w v : Wired} {h : List WireSymbol} {b : Bool}

theorem High.clocked {sampled : Option Bool} {level : Bool} (hw : High w h sampled b level) :
    Clocked w (h ++ sampled.toList.map WireSymbol.bit) := by
  refine ⟨hw.scl, ?_, ?_⟩
  · rw [hw.watched]
  · rw [hw.watched]
    rfl

/-- **While the clock is low** nothing that the data line does is heard. -/
theorem Low.record (hw : Low w h b) (hscl : v.scl = false) (htrace : v.trace = w.trace) :
    Low v.record h v.sda := by
  have hline : w.line.scl = false := hw.scl
  refine ⟨hscl, rfl, ?_⟩
  show watch (v.trace ++ [v.line]) = ⟨v.line, none, h⟩
  rw [watch_append, htrace, hw.watched, see, if_neg (by rw [hline]; simp)]
  show (⟨v.line, if v.scl then some v.line.sda else none, h⟩ : BusMonitor) = _
  rw [if_neg (by rw [hscl]; simp)]

theorem Low.move (hw : Low w h b) (level : Bool) : Low (w.move level) h b := by
  have hmove : Low (w.move level) h w.sda := hw.record hw.scl rfl
  rwa [hw.sda] at hmove

theorem Low.wander (hw : Low w h b) : Low (slave.wander w) h b := by
  have hmoves : ∀ levels : List Bool, ∀ w, Low w h b → Low (levels.foldl Wired.move w) h b := by
    intro levels
    induction levels with
    | nil => exact fun w hw => hw
    | cons level levels ih => exact fun w hw => ih _ (hw.move level)
  rw [Slave.wander, if_neg (by rw [hw.scl]; simp)]
  exact hmoves _ w hw

theorem Low.sdaLow (hw : Low w h b) : Low ((wired slave).sdaLow w) h false := by
  have hlow : Low (w.setSda false) h false := hw.record hw.scl rfl
  exact hlow.wander slave

theorem Low.sdaHigh (hw : Low w h b) : Low ((wired slave).sdaHigh w) h true := by
  have hlow : Low (w.setSda true) h true := hw.record hw.scl rfl
  exact hlow.wander slave

theorem Low.delay (hw : Low w h b) (d : UInt8) : Low ((wired slave).delay d w) h b :=
  hw.wander slave

/-- **The clock falls**, and the bit is complete. -/
theorem Clocked.sclLow (hw : Clocked w h) : Low ((wired slave).sclLow w) h w.sda := by
  have hline : (watch w.trace).line.scl = true := by
    rw [hw.line]
    exact hw.scl
  have hlow : Low (w.setScl false) h w.sda := by
    refine ⟨rfl, rfl, ?_⟩
    show watch (w.trace ++ [⟨w.sda && w.slave, false⟩]) = _
    rw [watch_append, see, if_pos hline, if_neg (by simp), hw.heard]
    rfl
  exact hlow.wander slave

/-- **The clock rises**: the line is low if one of the two pulls it low. -/
theorem Low.sclHigh (hw : Low w h b) :
    High ((wired slave).sclHigh w) h (some (b && slave.level (slave.phase h))) b
      (slave.level (slave.phase h)) := by
  have hdecode : decode w.trace = h := by
    rw [decode, hw.watched]
  have hsettle : slave.settle w = w.move (slave.level (slave.phase h)) := by
    rw [Slave.settle, if_neg (by rw [hw.scl]; simp), hdecode]
  have hrise : (wired slave).sclHigh w =
      (w.move (slave.level (slave.phase h))).setScl true := by
    rw [← hsettle]
    rfl
  have hlow := hw.move (slave.level (slave.phase h))
  have hline : (w.move (slave.level (slave.phase h))).line.scl = false := hw.scl
  rw [hrise]
  refine ⟨rfl, hw.sda, rfl, ?_⟩
  show watch ((w.move (slave.level (slave.phase h))).trace ++
    [⟨w.sda && slave.level (slave.phase h), true⟩]) = _
  rw [watch_append, hlow.watched, see, if_neg (by rw [hline]; simp), if_pos rfl, hw.sda]
  show (⟨⟨b && _, true⟩, some (b && _), h⟩ : BusMonitor) = ⟨⟨w.sda && _, true⟩, _, h⟩
  rw [hw.sda]
  rfl

/-! ## Bits -/

theorem stretch_wired (hw : w.scl = true) (turns : ℕ) : stretch (wired slave) turns w = w := by
  cases turns with
  | zero => rfl
  | succ turns => exact if_pos hw

theorem delay_high (hw : w.scl = true) (d : UInt8) : (wired slave).delay d w = w := if_pos hw

/-- **A pulse of the clock**: what the line was in it. -/
theorem pulse (hw : Clocked w h) (b : Bool) (d : UInt8) :
    High ((wired slave).sclHigh ((wired slave).delay d
      (if b then (wired slave).sdaHigh ((wired slave).sclLow w)
        else (wired slave).sdaLow ((wired slave).sclLow w)))) h
      (some (b && slave.level (slave.phase h))) b (slave.level (slave.phase h)) := by
  have hfall := hw.sclLow slave
  refine Low.sclHigh slave (Low.delay slave ?_ d)
  cases b with
  | false => exact hfall.sdaLow slave
  | true => exact hfall.sdaHigh slave

/-- **A bit is written**, unless the slave pulls the line low. -/
theorem writeBit_spec (hw : Clocked w h) (b : Bool) :
    Clocked (writeBit (wired slave) t b w)
      (h ++ [WireSymbol.bit (b && slave.level (slave.phase h))]) := by
  have hpulse := pulse slave hw b (t.dcount + 1)
  unfold writeBit
  dsimp only
  rw [stretch_wired slave hpulse.scl, delay_high slave hpulse.scl]
  exact hpulse.clocked

/-- **A bit is read.** -/
theorem readBit_spec (hw : Clocked w h) :
    (readBit (wired slave) t w).1 = slave.level (slave.phase h) ∧
      Clocked (readBit (wired slave) t w).2
        (h ++ [WireSymbol.bit (slave.level (slave.phase h))]) := by
  have hpulse := pulse slave hw true (t.dcount + 2)
  rw [if_pos rfl] at hpulse
  unfold readBit
  dsimp only
  rw [stretch_wired slave hpulse.scl]
  constructor
  · show (Wired.line _).sda = _
    rw [Wired.line, hpulse.sda, hpulse.slave, Bool.true_and]
  · show Clocked ((wired slave).delay t.dcount _) _
    exact (delay_high slave hpulse.scl t.dcount).symm ▸ hpulse.clocked

/-! ## The ends of a transfer -/

/-- The changes that the master makes then. -/
theorem sclHigh_high (hw : w.scl = true) : (wired slave).sclHigh w = w.setScl true :=
  congrArg (Wired.setScl · true) (if_pos hw)

theorem sdaLow_high (hw : w.scl = true) : (wired slave).sdaLow w = w.setSda false := if_pos hw

theorem sdaHigh_high (hw : w.scl = true) : (wired slave).sdaHigh w = w.setSda true := if_pos hw

/-- What is seen while the clock is high. -/
theorem High.see {sampled : Option Bool} {level : Bool} (hw : High w h sampled b level)
    (hscl : v.scl = true) (hslave : v.slave = level) (htrace : v.trace = w.trace) :
    watch v.record.trace = see ⟨⟨b && level, true⟩, sampled, h⟩ ⟨v.sda && level, true⟩ := by
  show watch (v.trace ++ [v.line]) = _
  rw [watch_append, htrace, hw.watched, Wired.line, Wired.line, hw.sda, hw.slave, hw.scl, hscl,
    hslave]

/-- A line that stays says nothing. -/
theorem High.same {sampled : Option Bool} {level : Bool} (hw : High w h sampled b level)
    (hscl : v.scl = true) (hsda : v.sda = b) (hslave : v.slave = level)
    (htrace : v.trace = w.trace) : High v.record h sampled b level := by
  refine ⟨hscl, hsda, hslave, ?_⟩
  have hline : v.record.line = ⟨b && level, true⟩ := by
    show (⟨v.sda && v.slave, v.scl⟩ : Line) = _
    rw [hsda, hslave, hscl]
  rw [hw.see hscl hslave htrace, BusMonitor.see, if_pos rfl, if_pos rfl, hsda,
    if_pos rfl, hline]

/-- **A change of the data line** while the clock is high is a start or a stop. -/
theorem High.change {sampled : Option Bool} (hw : High w h sampled b true)
    (hscl : v.scl = true) (hsda : v.sda = !b) (hslave : v.slave = true)
    (htrace : v.trace = w.trace) :
    High v.record (h ++ [if !b then WireSymbol.stop else WireSymbol.start]) none (!b) true := by
  refine ⟨hscl, hsda, hslave, ?_⟩
  have hline : v.record.line = ⟨!b, true⟩ := by
    show (⟨v.sda && v.slave, v.scl⟩ : Line) = _
    rw [hsda, hslave, hscl, Bool.and_true]
  rw [hw.see hscl hslave htrace, BusMonitor.see, if_pos rfl, if_pos rfl, hsda, Bool.and_true,
    Bool.and_true, if_neg (by simp), hline]

theorem High.start {sampled : Option Bool} (hw : High w h sampled true true) :
    High (w.setSda false) (h ++ [WireSymbol.start]) none false true :=
  hw.change hw.scl rfl hw.slave rfl

theorem High.stop {sampled : Option Bool} (hw : High w h sampled false true) :
    High (w.setSda true) (h ++ [WireSymbol.stop]) none true true :=
  hw.change hw.scl rfl hw.slave rfl

/-- **A start**, on lines that are high. -/
theorem writeStart_spec (hw : High w h none true true) :
    (writeStart (wired slave) t w).1 = true ∧
      Clocked (writeStart (wired slave) t w).2 (h ++ [WireSymbol.start]) := by
  have hclock : High (w.setScl true) h none true true := hw.same rfl hw.sda hw.slave rfl
  have hdata : High ((w.setScl true).setSda true) h none true true :=
    hclock.same hclock.scl rfl hclock.slave rfl
  have hstart := hdata.start
  have hlevel : (wired slave).sdaRead ((w.setScl true).setSda true) =
      (true, (w.setScl true).setSda true) := by
    show ((Wired.line _).sda, _) = _
    rw [Wired.line, hdata.sda, hdata.slave]
    rfl
  simp only [writeStart, sclHigh_high slave hw.scl, sdaHigh_high slave hclock.scl, hlevel,
    if_true, delay_high slave hdata.scl, sdaLow_high slave hdata.scl,
    delay_high slave hstart.scl]
  refine ⟨trivial, ?_⟩
  have hclocked := hstart.clocked
  rwa [Option.toList_none, List.map_nil, List.append_nil] at hclocked

/-- **A stop**, if the slave lets go of the line. -/
theorem writeStop_spec (hw : Clocked w h) (hlevel : slave.level (slave.phase h) = true) :
    High (writeStop (wired slave) t w) (h ++ [WireSymbol.stop]) none true true := by
  have hrise := (((hw.sclLow slave).sdaLow slave).delay slave t.dcount).sclHigh slave
  rw [hlevel] at hrise
  have hend := hrise.stop
  simp only [writeStop, stretch_wired slave hrise.scl, delay_high slave hrise.scl,
    sdaHigh_high slave hrise.scl]
  exact (delay_high slave hend.scl t.dcount).symm ▸ hend

/-! ## Bytes -/

/-- **The slave lets go of the line** while it hears these bits. -/
def Listens (h : List WireSymbol) (l : List Bool) : Prop :=
  ∀ k < l.length, slave.level (slave.phase (h ++ (l.take k).map WireSymbol.bit)) = true

theorem Listens.head {l : List Bool} (hl : Listens slave h (b :: l)) :
    slave.level (slave.phase h) = true := by
  have hfirst := hl 0 (Nat.succ_pos _)
  rwa [List.take_zero, List.map_nil, List.append_nil] at hfirst

theorem Listens.tail {l : List Bool} (hl : Listens slave h (b :: l)) :
    Listens slave (h ++ [WireSymbol.bit b]) l := by
  intro k hk
  have hnext := hl (k + 1) (Nat.succ_lt_succ hk)
  rwa [List.take_succ_cons, List.map_cons, List.append_cons] at hnext

/-- The bits that are written, from the highest one on. -/
def highBits : ℕ → UInt8 → List Bool
  | 0, _ => []
  | n + 1, byte => (byte &&& 0x80 != 0) :: highBits n (byte <<< 1)

theorem highBits_eight (byte : UInt8) : highBits 8 byte = bits byte := by
  have hall : ∀ b : Fin 256,
      highBits 8 (UInt8.ofFin b) = bits (UInt8.ofFin b) := by decide +kernel
  exact hall byte.toFin

theorem writeBits_spec {n : ℕ} {byte : UInt8} (hw : Clocked w h)
    (hl : Listens slave h (highBits n byte)) :
    Clocked (writeBits (wired slave) t n byte w)
      (h ++ (highBits n byte).map WireSymbol.bit) := by
  induction n generalizing byte w h with
  | zero =>
    rw [highBits, List.map_nil, List.append_nil]
    exact hw
  | succ n ih =>
    have hbit := writeBit_spec slave (t := t) hw (byte &&& 0x80 != 0)
    rw [hl.head, Bool.and_true] at hbit
    rw [highBits, List.map_cons, List.append_cons]
    exact ih hbit hl.tail

/-- **A byte is written.** -/
theorem writeByte_spec {byte : UInt8} (hw : Clocked w h) (hl : Listens slave h (bits byte))
    (hack : slave.level (slave.phase (h ++ (bits byte).map WireSymbol.bit)) = false) :
    (writeByte (wired slave) t byte w).1 = true ∧
      Clocked (writeByte (wired slave) t byte w).2 (h ++ (Item.byte byte true).symbols) := by
  rw [← highBits_eight] at hl hack
  obtain ⟨hread, hclocked⟩ := readBit_spec slave (t := t) (writeBits_spec slave (t := t) hw hl)
  rw [hack] at hread hclocked
  constructor
  · show (!(readBit (wired slave) t _).1) = true
    rw [hread]
    rfl
  · rw [highBits_eight, List.append_assoc] at hclocked
    exact hclocked

/-! ## What the slave makes of it -/

theorem phase_append (h l : List WireSymbol) :
    slave.phase (h ++ l) = l.foldl slave.hear (slave.phase h) := List.foldl_append

theorem phase_bit (h : List WireSymbol) (b : Bool) :
    slave.phase (h ++ [WireSymbol.bit b]) = slave.hear (slave.phase h) (WireSymbol.bit b) :=
  phase_append slave h _

/-- Up to seven bits are taken one by one. -/
theorem phase_bits {P : List Bool → Phase} {l : List Bool} (hh : slave.phase h = P [])
    (hbit : ∀ l b, l.length < 7 → slave.hear (P l) (WireSymbol.bit b) = P (l ++ [b]))
    (hl : l.length ≤ 7) : slave.phase (h ++ l.map WireSymbol.bit) = P l := by
  induction l using List.reverseRecOn with
  | nil => rwa [List.map_nil, List.append_nil]
  | append_singleton l b ih =>
    rw [List.length_append, List.length_singleton] at hl
    rw [List.map_append, ← List.append_assoc]
    refine (phase_bit slave _ b).trans ?_
    rw [ih (by omega), hbit l b (by omega)]

/-- **Its address** comes bit by bit. -/
theorem phase_address {l : List Bool} (hh : slave.phase h = .address []) (hl : l.length ≤ 7) :
    slave.phase (h ++ l.map WireSymbol.bit) = .address l :=
  phase_bits slave hh (fun _ _ hlt => if_pos hlt) hl

/-- A byte comes bit by bit. -/
theorem phase_receive {l : List Bool} (hh : slave.phase h = .receive 0) (hl : l.length ≤ 7) :
    slave.phase (h ++ l.map WireSymbol.bit) = .receive l.length := by
  refine phase_bits slave (P := fun l => .receive l.length) hh (fun l b hlt => ?_) hl
  rw [Slave.hear, if_pos (by omega), List.length_append, List.length_singleton]

/-- Seven bits of a byte and the last one. -/
theorem bits_split (byte : UInt8) :
    bits byte = (bits byte).take 7 ++ [byte.toNat.testBit 0] := rfl

/-- **The first byte** is listened to, and acknowledged if it has the address. -/
theorem address_byte {byte : UInt8} (hh : slave.phase h = .address [])
    (haddress : byte >>> 1 = slave.address) :
    Listens slave h (bits byte) ∧
      slave.phase (h ++ (bits byte).map WireSymbol.bit) =
        .acknowledge (byte.toNat.testBit 0) := by
  constructor
  · intro k hk
    have htake : ((bits byte).take k).length ≤ 7 :=
      (List.length_take_le _ _).trans (Nat.le_of_lt_succ hk)
    rw [phase_address slave hh htake]
    rfl
  · rw [bits_split, List.map_append, ← List.append_assoc]
    refine (phase_bit slave _ _).trans ?_
    have hseven : ((bits byte).take 7).length = 7 := rfl
    rw [phase_address slave hh hseven.le, Slave.hear, hseven, if_neg (Nat.lt_irrefl 7),
      ← bits_split, byteOf_bits, if_pos haddress]

/-- **A byte that it is sent** is listened to and acknowledged. -/
theorem receive_byte (hh : slave.phase h = .receive 0) (byte : UInt8) :
    Listens slave h (bits byte) ∧
      slave.phase (h ++ (bits byte).map WireSymbol.bit) = .acknowledgeByte := by
  constructor
  · intro k hk
    have htake : ((bits byte).take k).length ≤ 7 :=
      (List.length_take_le _ _).trans (Nat.le_of_lt_succ hk)
    rw [phase_receive slave hh htake]
    rfl
  · rw [bits_split, List.map_append, ← List.append_assoc]
    refine (phase_bit slave _ _).trans ?_
    rw [phase_receive slave hh (by rfl)]
    rfl

/-- The phase behind a byte that is acknowledged. -/
theorem phase_acknowledged {p : Phase} {byte : UInt8}
    (hp : slave.phase (h ++ (bits byte).map WireSymbol.bit) = p) :
    slave.phase (h ++ (Item.byte byte true).symbols) = slave.hear p (WireSymbol.bit false) := by
  rw [Item.symbols, ← List.append_assoc]
  exact (phase_bit slave _ _).trans (by rw [hp]; rfl)

/-! ## Writing -/

theorem writeLoop_spec {buf : List UInt8} {n i : ℕ} (hw : Clocked w h)
    (hh : slave.phase h = .receive 0) (hn : i + n ≤ buf.length) :
    ∃ w', writeLoop (wired slave) t buf n i w = some (true, w') ∧
      Clocked w' (h ++ (((buf.drop i).take n).map (Item.byte · true)).flatMap Item.symbols) ∧
      slave.phase (h ++ (((buf.drop i).take n).map (Item.byte · true)).flatMap Item.symbols) =
        .receive 0 := by
  induction n generalizing i w h with
  | zero =>
    rw [List.take_zero, List.map_nil, List.flatMap_nil, List.append_nil]
    exact ⟨w, rfl, hw, hh⟩
  | succ n ih =>
    have hi : i < buf.length := by omega
    obtain ⟨hlistens, hphase⟩ := receive_byte slave hh buf[i]
    obtain ⟨hack, hclocked⟩ := writeByte_spec slave (t := t) hw hlistens (by rw [hphase]; rfl)
    have hnext := phase_acknowledged slave hphase
    obtain ⟨w', hloop, hclocked', hphase'⟩ := ih (i := i + 1) hclocked hnext (by omega)
    rw [List.drop_eq_getElem_cons hi, List.take_succ_cons, List.map_cons, List.flatMap_cons,
      ← List.append_assoc]
    refine ⟨w', ?_, hclocked', hphase'⟩
    rw [writeLoop, List.getElem?_eq_getElem hi, Option.bind_eq_bind, Option.bind_some]
    dsimp only
    rw [if_pos hack]
    exact hloop

/-- The line is high, and no pulse is needed. -/
theorem clockOut_high (hw : High w h none true true) (turns : ℕ) :
    clockOut (wired slave) t turns w = w := by
  cases turns with
  | zero => rfl
  | succ turns =>
    have hlevel : (wired slave).sdaRead w = (true, w) := by
      show (w.line.sda, w) = _
      rw [Wired.line, hw.sda, hw.slave]
      rfl
    simp only [clockOut, hlevel, if_true]

/-! ## Reading -/

/-- **The slave sends its byte** from bit `8 - n` on. -/
def Sends (h : List WireSymbol) (k n : ℕ) : Prop :=
  slave.phase h = if n = 0 then .listen k else .send k (8 - n)

theorem Sends.next {k n : ℕ} (hh : Sends slave h k (n + 1)) (hn : n + 1 ≤ 8) (b : Bool) :
    Sends slave (h ++ [WireSymbol.bit b]) k n := by
  unfold Sends at hh ⊢
  rw [phase_bit, hh, if_neg (Nat.succ_ne_zero n), Slave.hear]
  split
  · rw [if_neg (by omega), show 8 - (n + 1) + 1 = 8 - n by omega]
  · rw [if_pos (by omega)]

/-- The bits that are still to come. -/
theorem bits_drop {byte : UInt8} {n : ℕ} (hn : n + 1 ≤ 8) :
    (bits byte).drop (8 - (n + 1)) =
      (bits byte).getD (8 - (n + 1)) true :: (bits byte).drop (8 - n) := by
  have hlt : 8 - (n + 1) < (bits byte).length := by
    show 8 - (n + 1) < 8
    omega
  rw [List.drop_eq_getElem_cons hlt, List.getD_eq_getElem?_getD, List.getElem?_eq_getElem hlt,
    Option.getD_some, show 8 - (n + 1) + 1 = 8 - n by omega]

theorem readBits_spec {n k : ℕ} (byte : UInt8) (hw : Clocked w h) (hn : n ≤ 8)
    (hh : Sends slave h k n) :
    ∃ w', readBits (wired slave) t n byte w =
        (((bits (slave.data k)).drop (8 - n)).foldl
          (fun (v : UInt8) b => v <<< 1 ||| b.toUInt8) byte, w') ∧
      Clocked w' (h ++ ((bits (slave.data k)).drop (8 - n)).map WireSymbol.bit) ∧
      slave.phase (h ++ ((bits (slave.data k)).drop (8 - n)).map WireSymbol.bit) =
        .listen k := by
  induction n generalizing byte w h with
  | zero =>
    refine ⟨w, rfl, ?_, ?_⟩
    · rw [List.drop_eq_nil_of_le (by rfl), List.map_nil, List.append_nil]
      exact hw
    · rw [List.drop_eq_nil_of_le (by rfl), List.map_nil, List.append_nil]
      exact hh
  | succ n ih =>
    obtain ⟨hread, hclocked⟩ := readBit_spec slave (t := t) hw
    have hlevel : slave.level (slave.phase h) =
        (bits (slave.data k)).getD (8 - (n + 1)) true := by
      rw [show slave.phase h = _ from hh, if_neg (Nat.succ_ne_zero n)]
      rfl
    rw [hlevel] at hread hclocked
    obtain ⟨w', hbits, hclocked', hphase⟩ := ih
      (byte <<< 1 ||| ((bits (slave.data k)).getD (8 - (n + 1)) true).toUInt8) hclocked
      (by omega) (hh.next slave hn _)
    rw [bits_drop hn, List.map_cons, List.append_cons]
    refine ⟨w', ?_, hclocked', hphase⟩
    rw [readBits]
    dsimp only
    rw [hread]
    exact hbits

/-- **A byte is read.** -/
theorem readByte_spec {k : ℕ} (hw : Clocked w h) (hh : slave.phase h = .send k 0)
    (nack : Bool) :
    ∃ w', readByte (wired slave) t nack w = (slave.data k, w') ∧
      Clocked w' (h ++ (Item.byte (slave.data k) (!nack)).symbols) ∧
      slave.phase (h ++ (Item.byte (slave.data k) (!nack)).symbols) =
        if nack then .idle else .send (k + 1) 0 := by
  obtain ⟨w', hbits, hclocked, hphase⟩ := readBits_spec slave (t := t) 0 hw le_rfl hh
  rw [Nat.sub_self, List.drop_zero] at hbits hclocked hphase
  have hbit := writeBit_spec slave (t := t) hclocked nack
  have hbyte : (bits (slave.data k)).foldl (fun (v : UInt8) b => v <<< 1 ||| b.toUInt8) 0 =
      slave.data k :=
    byteOf_bits _
  rw [hbyte] at hbits
  rw [hphase, show slave.level (.listen k) = true from rfl, Bool.and_true,
    List.append_assoc] at hbit
  rw [Item.symbols, Bool.not_not]
  refine ⟨writeBit (wired slave) t nack w', ?_, hbit, ?_⟩
  · rw [readByte, hbits]
  · rw [← List.append_assoc, phase_bit, hphase]
    rfl

theorem readLoop_spec (buf : List UInt8) {n i : ℕ} (hw : Clocked w h)
    (hh : slave.phase h = .send i 0) (hn : i + n ≤ buf.length) :
    ∃ w', readLoop (wired slave) t n i buf w =
        some (buf.take i ++ (List.range' i n).map slave.data ++ buf.drop (i + n), w') ∧
      Clocked w' (h ++ ((List.range' i n).map fun k => Item.byte (slave.data k) true).flatMap
        Item.symbols) ∧
      slave.phase (h ++ ((List.range' i n).map fun k => Item.byte (slave.data k) true).flatMap
        Item.symbols) = .send (i + n) 0 := by
  induction n generalizing i w h buf with
  | zero =>
    rw [List.range'_zero, List.map_nil, List.map_nil, List.flatMap_nil, List.append_nil,
      List.append_nil, Nat.add_zero, List.take_append_drop]
    exact ⟨w, rfl, hw, hh⟩
  | succ n ih =>
    obtain ⟨w₁, hbyte, hclocked, hphase⟩ := readByte_spec slave (t := t) hw hh false
    have hi : i < buf.length := by omega
    have hset : Block.set buf i (slave.data i) = some (buf.set i (slave.data i)) := if_pos hi
    obtain ⟨w', hloop, hclocked', hphase'⟩ := ih (buf.set i (slave.data i)) (i := i + 1)
      hclocked hphase (by rw [List.length_set]; omega)
    have htake : (buf.set i (slave.data i)).take (i + 1) = buf.take i ++ [slave.data i] :=
      Block.take_of_set hset
    rw [List.range'_succ, List.map_cons, List.map_cons, List.flatMap_cons, ← List.append_assoc]
    refine ⟨w', ?_, hclocked', ?_⟩
    · rw [readLoop, hbyte]
      dsimp only
      rw [hset, Option.bind_eq_bind, Option.bind_some, hloop, htake,
        List.drop_set_of_lt (by omega)]
      simp [Nat.add_assoc, Nat.add_comm 1]
    · rw [← Nat.add_assoc, Nat.add_right_comm]
      exact hphase'

/-! ## Transfers -/

theorem idle_high : High Wired.idle [] none true true := ⟨rfl, rfl, rfl, rfl⟩

/-- The first byte of a transfer. -/
theorem address_shift {address : UInt8} (h : address < 0x80) :
    (address <<< 1 ||| 0) >>> 1 = address ∧ (address <<< 1 ||| 0).toNat.testBit 0 = false ∧
      (address <<< 1 ||| 1) >>> 1 = address ∧ (address <<< 1 ||| 1).toNat.testBit 0 = true := by
  have hall : ∀ a : Fin 256, UInt8.ofFin a < 0x80 →
      (UInt8.ofFin a <<< 1 ||| 0) >>> 1 = UInt8.ofFin a ∧
        (UInt8.ofFin a <<< 1 ||| 0).toNat.testBit 0 = false ∧
        (UInt8.ofFin a <<< 1 ||| 1) >>> 1 = UInt8.ofFin a ∧
        (UInt8.ofFin a <<< 1 ||| 1).toNat.testBit 0 = true := by decide +kernel
  exact hall address.toFin h

/-- **The start and the address**, which is acknowledged. -/
theorem begin_spec {byte : UInt8} (hbyte : byte >>> 1 = slave.address) :
    ∃ w₁ w₂, writeStart (wired slave) t Wired.idle = (true, w₁) ∧
      writeByte (wired slave) t byte w₁ = (true, w₂) ∧
      Clocked w₂ ([Item.start, Item.byte byte true].flatMap Item.symbols) ∧
      slave.phase ([Item.start, Item.byte byte true].flatMap Item.symbols) =
        if byte.toNat.testBit 0 then .send 0 0 else .receive 0 := by
  obtain ⟨hfree, hstart⟩ := writeStart_spec slave (t := t) idle_high
  have hphase : slave.phase ([] ++ [WireSymbol.start]) = .address [] := rfl
  obtain ⟨hlistens, hack⟩ := address_byte slave hphase hbyte
  obtain ⟨hok, hclocked⟩ := writeByte_spec slave (t := t) hstart hlistens (by rw [hack]; rfl)
  have hnext := phase_acknowledged slave hack
  exact ⟨_, _, Prod.ext hfree rfl, Prod.ext hok rfl, hclocked, hnext⟩

/-- **What ends a transfer.** -/
theorem end_spec (hw : Clocked w h) (hlevel : slave.level (slave.phase h) = true) :
    clockOut (wired slave) t 10 (stopIf (wired slave) t true w) = writeStop (wired slave) t w ∧
      decode (writeStop (wired slave) t w).trace = h ++ [WireSymbol.stop] := by
  have hstop := writeStop_spec slave (t := t) hw hlevel
  exact ⟨clockOut_high slave hstop 10, by rw [decode, hstop.watched]⟩

/-- **What is written** is heard, every byte acknowledged. -/
theorem writeTo_spec {address : UInt8} (haddress : address < 0x80)
    (hslave : slave.address = address) {buf : List UInt8} {len : UInt32}
    (hlen : len.toNat ≤ buf.length) :
    ∃ w, writeTo (wired slave) t address buf len true Wired.idle = some (0, w) ∧
      items (decode w.trace) = some (.start :: .byte (address <<< 1) true ::
        (buf.take len.toNat).map (.byte · true) ++ [.stop]) := by
  obtain ⟨hshift, hbit, -, -⟩ := address_shift haddress
  obtain ⟨w₁, w₂, hstart, haddr, hclocked, hphase⟩ :=
    begin_spec slave (t := t) (hshift.trans hslave.symm)
  rw [hbit, if_neg Bool.false_ne_true] at hphase
  obtain ⟨w₃, hloop, hclocked', hphase'⟩ :=
    writeLoop_spec slave (t := t) (i := 0) hclocked hphase
      (by omega : 0 + len.toNat ≤ buf.length)
  rw [List.drop_zero, ← List.flatMap_append] at hclocked' hphase'
  obtain ⟨hend, hdecode⟩ := end_spec slave (t := t) hclocked' (by rw [hphase']; rfl)
  refine ⟨writeStop (wired slave) t w₃, ?_, ?_⟩
  · rw [writeTo, hstart]
    dsimp only
    rw [if_pos rfl, haddr]
    dsimp only
    rw [if_pos rfl, hloop, Option.bind_eq_bind, Option.bind_some]
    dsimp only
    rw [if_pos rfl, hend]
    rfl
  · have hitems := items_flatMap ([Item.start, Item.byte (address <<< 1 ||| 0) true] ++
      (buf.take len.toNat).map (Item.byte · true) ++ [Item.stop])
    rw [List.flatMap_append] at hitems
    rw [hdecode]
    refine hitems.trans ?_
    rw [UInt8.or_zero]
    rfl

/-- **What is read** is heard, and every byte but the last one acknowledged. -/
theorem readFrom_spec {address : UInt8} (haddress : address < 0x80)
    (hslave : slave.address = address) {buf : List UInt8} {len : UInt32} (hpos : 1 ≤ len)
    (hlen : len.toNat ≤ buf.length) :
    ∃ w, readFrom (wired slave) t address buf len true Wired.idle =
        some (0, (List.range len.toNat).map slave.data ++ buf.drop len.toNat, w) ∧
      items (decode w.trace) = some (.start :: .byte (address <<< 1 ||| 1) true ::
        (List.range (len.toNat - 1)).map (fun k => .byte (slave.data k) true) ++
          [.byte (slave.data (len.toNat - 1)) false, .stop]) := by
  obtain ⟨-, -, hshift, hbit⟩ := address_shift haddress
  obtain ⟨w₁, w₂, hstart, haddr, hclocked, hphase⟩ :=
    begin_spec slave (t := t) (hshift.trans hslave.symm)
  rw [hbit, if_pos rfl] at hphase
  obtain ⟨m, hm⟩ : ∃ m, len.toNat = m + 1 :=
    ⟨len.toNat - 1, (Nat.sub_add_cancel (UInt32.le_iff_toNat_le.mp hpos)).symm⟩
  have hpred : (len - 1).toNat = m := by
    rw [UInt32.toNat_sub_of_le len 1 hpos, hm]
    rfl
  rw [hm] at hlen ⊢
  obtain ⟨w₃, hloop, hclocked', hphase'⟩ :=
    readLoop_spec slave (t := t) buf hclocked hphase (by omega : 0 + m ≤ buf.length)
  rw [← List.flatMap_append] at hclocked' hphase'
  rw [Nat.zero_add] at hphase'
  obtain ⟨w₄, hlast, hclocked'', hphase''⟩ :=
    readByte_spec slave (t := t) hclocked' hphase' true
  obtain ⟨hend, hdecode⟩ := end_spec slave (t := t) hclocked'' (by rw [hphase'']; rfl)
  have hset : Block.set ((List.range m).map slave.data ++ buf.drop m) m (slave.data m) =
      some ((List.range (m + 1)).map slave.data ++ buf.drop (m + 1)) := by
    have happend := Block.set_append ((List.range m).map slave.data) (buf.drop (m + 1)) buf[m]
      (slave.data m)
    rw [List.length_map, List.length_range, ← List.drop_eq_getElem_cons] at happend
    rw [happend, List.range_succ, List.map_append, List.append_assoc]
    rfl
  refine ⟨writeStop (wired slave) t w₄, ?_, ?_⟩
  · rw [readFrom, hstart]
    dsimp only
    rw [if_pos rfl, haddr]
    dsimp only
    rw [if_pos rfl, hpred, hloop, Option.bind_eq_bind, Option.bind_some]
    dsimp only
    rw [hlast, List.take_zero, List.nil_append, Nat.zero_add, ← List.range_eq_range']
    dsimp only
    rw [hset, Option.bind_eq_bind, Option.bind_some, hend]
    rfl
  · have hitems := items_flatMap ([Item.start, Item.byte (address <<< 1 ||| 1) true] ++
      (List.range' 0 m).map (fun k => Item.byte (slave.data k) true) ++
      [Item.byte (slave.data m) false] ++ [Item.stop])
    rw [List.flatMap_append, List.flatMap_append] at hitems
    have hbytes : [Item.byte (slave.data m) false].flatMap Item.symbols =
        (Item.byte (slave.data m) false).symbols := List.append_nil _
    rw [hbytes] at hitems
    rw [hdecode]
    refine hitems.trans ?_
    rw [← List.range_eq_range', List.append_assoc]
    rfl

/-- **Both transfers are heard as they should be**, whatever the slave does with the
data line while the clock is low. -/
theorem transfers_heard {address : UInt8} (haddress : address < 0x80)
    (hslave : slave.address = address) {buf : List UInt8} {len : UInt32}
    (hlen : len.toNat ≤ buf.length) :
    (∃ w, writeTo (wired slave) t address buf len true Wired.idle = some (0, w) ∧
      items (decode w.trace) = some (.start :: .byte (address <<< 1) true ::
        (buf.take len.toNat).map (.byte · true) ++ [.stop])) ∧
    (1 ≤ len → ∃ w, readFrom (wired slave) t address buf len true Wired.idle =
        some (0, (List.range len.toNat).map slave.data ++ buf.drop len.toNat, w) ∧
      items (decode w.trace) = some (.start :: .byte (address <<< 1 ||| 1) true ::
        (List.range (len.toNat - 1)).map (fun k => .byte (slave.data k) true) ++
          [.byte (slave.data (len.toNat - 1)) false, .stop])) :=
  ⟨writeTo_spec slave haddress hslave hlen,
    fun hpos => readFrom_spec slave haddress hslave hpos hlen⟩

/-- A slave that moves the line twice in every change. -/
def restless : Slave := ⟨0x68, fun k => UInt8.ofNat k, fun _ => [false, true]⟩

/-- Two bytes to and from it. -/
theorem transfers_heard_restless :
    (∃ w, writeTo (wired restless) ⟨true, 19⟩ 0x68 [0x12, 0x34] 2 true Wired.idle =
      some (0, w) ∧
      items (decode w.trace) = some (.start :: .byte ((0x68 : UInt8) <<< 1) true ::
        ([0x12, 0x34].take (2 : UInt32).toNat).map (.byte · true) ++ [.stop])) ∧
    (1 ≤ (2 : UInt32) → ∃ w,
      readFrom (wired restless) ⟨true, 19⟩ 0x68 [0x12, 0x34] 2 true Wired.idle =
        some (0, (List.range (2 : UInt32).toNat).map restless.data ++
          [0x12, 0x34].drop (2 : UInt32).toNat, w) ∧
      items (decode w.trace) = some (.start :: .byte ((0x68 : UInt8) <<< 1 ||| 1) true ::
        (List.range ((2 : UInt32).toNat - 1)).map (fun k => .byte (restless.data k) true) ++
          [.byte (restless.data ((2 : UInt32).toNat - 1)) false, .stop])) :=
  transfers_heard restless (by decide) rfl
    (show (2 : UInt32).toNat ≤ [0x12, 0x34].length by decide)

end Twi
