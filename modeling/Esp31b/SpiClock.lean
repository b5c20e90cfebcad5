import Esp31b.CString
import Mathlib.Data.Int.Order.Basic
import Mathlib.Data.Nat.Basic
import Mathlib.Logic.Function.Basic
import Mathlib.Order.Bounds.Defs

/-!
# The clock of an SPI bus

A bus runs at the system clock divided by two numbers, one up to 8192 and one
from 2 to 64, and `setFrequency` looks for the two that come nearest to a
frequency without going over it. It goes through the second number and tries
four of the first around a quotient that was rounded down twice.

Four are enough, and in fact two (`exists_divisor_le`). The right first number
is the next above the quotient by a frequency one higher. Either that is the
quotient by the frequency too, and the next above is tried; or the two differ,
however much, and then the quotient itself gives the frequency exactly. That
is also where the search ends.

The last frequency and its register are remembered for all buses together. A
register that is the remembered one was found for the remembered frequency,
whoever wrote it, so that the search can be left out (`Remembered`). With that
the frequency is the best there is after any calls (`setFrequency_isGreatest`).
-/

/-! ## Rounded quotients -/

/-- Divided by `m` it is at most `f` from the quotient by `f + 1` on. -/
theorem div_le_iff_div_succ_lt {a f m : ℕ} (hm : 0 < m) : a / m ≤ f ↔ a / (f + 1) < m := by
  rw [← Nat.lt_succ_iff, Nat.div_lt_iff_lt_mul hm, Nat.div_lt_iff_lt_mul (Nat.succ_pos f),
    Nat.mul_comm]

/-- **A quotient that changes is a divisor for the frequency.** -/
theorem div_div_eq_of_div_succ_lt {a f : ℕ} (h : a / (f + 1) < a / f) : a / (a / f) = f := by
  have hq : 0 < a / f := Nat.lt_of_le_of_lt (Nat.zero_le _) h
  refine Nat.le_antisymm ((div_le_iff_div_succ_lt hq).mpr h) ?_
  rw [Nat.le_div_iff_mul_le hq, Nat.mul_comm]
  exact Nat.div_mul_le_self a f

/-- A number in the range of the divisors. -/
def clampDivisor (top : ℕ) (v : ℤ) : ℕ := if top < v then top else if v ≤ 1 then 1 else v.toNat

theorem clampDivisor_of_le {n top : ℕ} (hn : 0 < n) (htop : n ≤ top) :
    clampDivisor top n = n := by
  unfold clampDivisor
  rw [if_neg (by omega)]
  split_ifs <;> omega

theorem clampDivisor_of_lt {top : ℕ} {v : ℤ} (h : top < v) : clampDivisor top v = top :=
  if_pos h

/-- **One of two divisors is at least as good as any other**: the quotient by
the frequency, or the next. -/
theorem exists_divisor_le {a f m top : ℕ} (hf : 0 < f) (hm : 0 < m) (htop : m ≤ top)
    (hle : a / m ≤ f) :
    ∃ j : ℕ, (j = 0 ∨ j = 1) ∧ a / m ≤ a / clampDivisor top (a / f + j : ℕ) ∧
      a / clampDivisor top (a / f + j : ℕ) ≤ f := by
  have hlow : a / (f + 1) < m := (div_le_iff_div_succ_lt hm).mp hle
  rcases Nat.lt_or_ge (a / (f + 1)) (a / f) with hlt | hge
  · refine ⟨0, Or.inl rfl, ?_⟩
    have hhit := div_div_eq_of_div_succ_lt hlt
    by_cases hq : a / f ≤ top
    · rw [Nat.add_zero, clampDivisor_of_le (Nat.lt_of_le_of_lt (Nat.zero_le _) hlt) hq, hhit]
      exact ⟨hle, Nat.le_refl f⟩
    · -- it is beyond the largest one, which is as good
      have htop' : a / top ≤ f := (div_le_iff_div_succ_lt (by omega)).mpr (by omega)
      have hfreq : f ≤ a / top := by
        calc f = a / (a / f) := hhit.symm
          _ ≤ a / top := Nat.div_le_div_left (by omega) (by omega)
      rw [Nat.add_zero, clampDivisor_of_lt (by omega)]
      exact ⟨Nat.le_trans hle hfreq, htop'⟩
  · have hmono : a / (f + 1) ≤ a / f := Nat.div_le_div_left (Nat.le_succ f) hf
    refine ⟨1, Or.inr rfl, ?_⟩
    rw [clampDivisor_of_le (Nat.succ_pos _) (by omega)]
    exact ⟨Nat.div_le_div_left (by omega) (Nat.succ_pos _),
      (div_le_iff_div_succ_lt (Nat.succ_pos _)).mpr (by omega)⟩

namespace SpiClock

/-! ## The register -/

/-- `ESP31B_CLOCK`. -/
def systemClock : ℕ := 80000000

/-- `spiClk_t`, by its fields. -/
structure SpiClk where
  regL : BitVec 6
  regH : BitVec 6
  regN : BitVec 6
  regPre : BitVec 13
  regEQU : BitVec 1
  deriving DecidableEq, Repr

/-- Its `regValue`, the first field lowest. -/
def SpiClk.regValue (reg : SpiClk) : BitVec 32 :=
  reg.regEQU ++ (reg.regPre ++ (reg.regN ++ (reg.regH ++ reg.regL)))

/-- The union written as `regValue`. -/
def spiClk (regValue : BitVec 32) : SpiClk :=
  ⟨regValue.extractLsb' 0 6, regValue.extractLsb' 6 6, regValue.extractLsb' 12 6,
    regValue.extractLsb' 18 13,
    regValue.extractLsb' 31 1⟩

/-- `ClkRegToFreq`. -/
def clkRegToFreq (reg : SpiClk) : ℕ :=
  systemClock / ((reg.regPre.toNat + 1) * (reg.regN.toNat + 1))

/-- **The frequencies there are** up to one, `n` being at least 1. -/
def frequencies (freq : ℕ) : Set ℕ :=
  {v | ∃ n p, 1 ≤ n ∧ n ≤ 63 ∧ p ≤ 8191 ∧ v = systemClock / ((p + 1) * (n + 1)) ∧ v ≤ freq}

/-! ## The search -/

/-- The register for `calN` and `calPreVari`. -/
def variant (freq calN : ℕ) (calPreVari : ℤ) : SpiClk :=
  let regN : BitVec 6 := BitVec.ofNat 6 calN
  let calPre := int32 (((systemClock / (regN.toNat + 1) / freq : ℕ) : ℤ) - 1 + calPreVari)
  { regL := BitVec.ofNat 6 ((regN.toNat + 1) / 2)
    regH := 0
    regN := regN
    regPre := if calPre > 0x1FFF then 0x1FFF else if calPre ≤ 0 then 0
      else BitVec.ofInt 13 calPre
    regEQU := 0 }

/-- `abs(freq - calFreq)`. The difference is unsigned, and is its own
absolute value. -/
def distance (freq : ℕ) (calFreq : ℤ) : ℤ := (freq - calFreq) % 2 ^ 32

/-- The variables of the search that outlive a turn. -/
structure Search where
  bestReg : SpiClk
  bestFreq : ℤ
  calFreq : ℤ

/-- The loop over these values of `calPreVari`; it is left at an exact match. -/
def searchPre (freq calN : ℕ) : List ℤ → Search → Search
  | [], s => s
  | calPreVari :: rest, s =>
    let reg := variant freq calN calPreVari
    let calFreq := int32 (clkRegToFreq reg)
    if calFreq = int32 freq then ⟨reg, s.bestFreq, calFreq⟩
    else if calFreq < int32 freq then
      if distance freq calFreq < distance freq s.bestFreq then
        searchPre freq calN rest ⟨reg, calFreq, calFreq⟩
      else searchPre freq calN rest { s with calFreq := calFreq }
    else searchPre freq calN rest { s with calFreq := calFreq }

/-- What `calPreVari` is in the body of its loop. -/
def preVariants : List ℤ := [-1, 0, 1, 2]

/-- The loop over these values of `calN`. -/
def searchN (freq : ℕ) : List ℕ → Search → Search
  | [], s => s
  | calN :: rest, s =>
    let s := searchPre freq calN preVariants s
    if s.calFreq = int32 freq then s else searchN freq rest s

/-- **The best match**, `calN` going up to `0x3F`. -/
def search (freq : ℕ) : Search := searchN freq (List.range' 1 0x3F) ⟨⟨0, 0, 0, 0, 0⟩, 0, 0⟩

/-! ## The calls -/

/-- `SPIOS`, where the registers of a bus are; the buses that do not exist
have one place. -/
def spios (bus : BitVec 8) : ℕ :=
  if bus = 0 then 0x3000
  else if bus = 1 then 0x2000
  else if bus = 2 then 0x23000
  else if bus = 3 then 0x24000
  else 0

/-- `SPICLK`. -/
def spiclk (bus : BitVec 8) : ℕ := spios bus + 0x18

/-- **The registers, and what `setFrequency` remembers** in its static
variables. -/
structure Clocks where
  regs : ℕ → BitVec 32
  lastSetFrequency : BitVec 32
  lastSetRegister : BitVec 32

def setClockDivider (bus : BitVec 8) (clockDiv : BitVec 32) (s : Clocks) : Clocks :=
  { s with regs := Function.update s.regs (spiclk bus) clockDiv }

/-- The register is set and remembered with its frequency. -/
def setAndRemember (bus : BitVec 8) (freq clockDiv : BitVec 32) (s : Clocks) : Clocks :=
  let s := setClockDivider bus clockDiv s
  { s with lastSetRegister := s.regs (spiclk bus), lastSetFrequency := freq }

def setFrequency (bus : BitVec 8) (freq : BitVec 32) (s : Clocks) : Clocks :=
  if systemClock ≤ freq.toNat then setClockDivider bus 0x80000000 s
  else if s.lastSetFrequency = freq ∧ s.lastSetRegister = s.regs (spiclk bus) then s
  else
    let minFreqReg := spiClk 0x7FFFF000
    let minFreq := clkRegToFreq minFreqReg
    if freq.toNat < minFreq then setAndRemember bus freq minFreqReg.regValue s
    else setAndRemember bus freq (search freq.toNat).bestReg.regValue s

/-- A call on an object, which is its bus. -/
inductive Call where
  | setFrequency (bus : BitVec 8) (freq : BitVec 32)
  | setClockDivider (bus : BitVec 8) (clockDiv : BitVec 32)

def call (s : Clocks) : Call → Clocks
  | .setFrequency bus freq => setFrequency bus freq s
  | .setClockDivider bus clockDiv => setClockDivider bus clockDiv s

/-- **Any calls**, from the start on. -/
def run (regs : ℕ → BitVec 32) (calls : List Call) : Clocks := calls.foldl call ⟨regs, 0, 0⟩

/-! ## What a register gives -/

theorem spiClk_regValue (reg : SpiClk) : spiClk reg.regValue = reg := by
  obtain ⟨regL, regH, regN, regPre, regEQU⟩ := reg
  unfold spiClk SpiClk.regValue
  dsimp only
  congr 1 <;>
  · refine BitVec.eq_of_getLsbD_eq fun i hi => ?_
    simp only [BitVec.getLsbD_extractLsb', BitVec.getLsbD_append]
    grind

/-- The first divisor of a variant, and its second. -/
theorem variant_fields (freq : ℕ) {calN : ℕ} {calPreVari : ℤ} (hN : calN ≤ 63)
    (hlow : -1 ≤ calPreVari) (hhigh : calPreVari ≤ 2) :
    (variant freq calN calPreVari).regN.toNat = calN ∧
      (variant freq calN calPreVari).regPre.toNat + 1 =
        clampDivisor 8192 ((systemClock / (calN + 1) / freq : ℕ) + calPreVari) := by
  have hregN : (BitVec.ofNat 6 calN).toNat = calN := by
    rw [BitVec.toNat_ofNat]
    omega
  refine ⟨hregN, ?_⟩
  have hq : systemClock / (calN + 1) / freq ≤ 80000000 :=
    Nat.le_trans (Nat.div_le_self _ _) (Nat.div_le_self _ _)
  unfold variant clampDivisor
  dsimp only
  rw [hregN]
  generalize systemClock / (calN + 1) / freq = q at hq
  rw [int32_of_lt (by omega) (by omega)]
  by_cases htop : (q : ℤ) - 1 + calPreVari > 0x1FFF
  · rw [if_pos htop, if_pos (by omega)]
    rfl
  · have htop' : ¬ ((8192 : ℕ) : ℤ) < q + calPreVari := by omega
    rw [if_neg htop, if_neg htop']
    by_cases hzero : (q : ℤ) - 1 + calPreVari ≤ 0
    · rw [if_pos hzero, if_pos (by omega)]
      rfl
    · have hzero' : ¬ (q : ℤ) + calPreVari ≤ 1 := by omega
      rw [if_neg hzero, if_neg hzero', BitVec.toNat_ofInt]
      omega

/-- The frequency of a variant. -/
theorem clkRegToFreq_variant {freq calN : ℕ} {calPreVari : ℤ} (hN : calN ≤ 63)
    (hlow : -1 ≤ calPreVari) (hhigh : calPreVari ≤ 2) :
    clkRegToFreq (variant freq calN calPreVari) =
      systemClock / (calN + 1) / clampDivisor 8192
        ((systemClock / (calN + 1) / freq : ℕ) + calPreVari) := by
  obtain ⟨hregN, hregPre⟩ := variant_fields freq hN hlow hhigh
  rw [clkRegToFreq, hregN, hregPre, Nat.mul_comm, ← Nat.div_div_eq_div_mul]

theorem clkRegToFreq_le (reg : SpiClk) : clkRegToFreq reg ≤ 80000000 := Nat.div_le_self _ _

/-- **The register of a frequency there is.** -/
theorem mem_frequencies {freq : ℕ} {reg : SpiClk} (hN : 1 ≤ reg.regN.toNat)
    (hle : clkRegToFreq reg ≤ freq) :
    clkRegToFreq reg ∈ frequencies freq :=
  ⟨reg.regN.toNat, reg.regPre.toNat, hN, by omega, by omega, rfl, hle⟩

/-- **A variant is at least as good** as any frequency with the same second
divisor. -/
theorem exists_variant {freq calN p : ℕ} (hfreq : 0 < freq) (hN : calN ≤ 63) (hp : p ≤ 8191)
    (hle : systemClock / ((p + 1) * (calN + 1)) ≤ freq) :
    ∃ calPreVari ∈ preVariants, systemClock / ((p + 1) * (calN + 1)) ≤
      clkRegToFreq (variant freq calN calPreVari) ∧
      clkRegToFreq (variant freq calN calPreVari) ≤ freq := by
  rw [Nat.mul_comm, ← Nat.div_div_eq_div_mul] at hle ⊢
  obtain ⟨j, hj, hbest, hnot⟩ :=
    exists_divisor_le hfreq (Nat.succ_pos p) (Nat.succ_le_succ hp) hle
  refine ⟨j, ?_, ?_⟩
  · rcases hj with rfl | rfl
    · decide
    · decide
  · rw [clkRegToFreq_variant hN (by omega) (by omega)]
    exact ⟨hbest, hnot⟩

/-! ## What the search finds -/

/-- **No exact match yet**: the best one is below the frequency, or there is
none. -/
structure Searching (freq : ℕ) (s : Search) : Prop where
  calFreq : s.calFreq ≠ freq
  nonneg : 0 ≤ s.bestFreq
  below : s.bestFreq < freq
  reg : s.bestFreq ≠ 0 → 1 ≤ s.bestReg.regN.toNat ∧ (clkRegToFreq s.bestReg : ℤ) = s.bestFreq

/-- **An exact match.** -/
structure Exact (freq : ℕ) (s : Search) : Prop where
  calFreq : s.calFreq = freq
  regN : 1 ≤ s.bestReg.regN.toNat
  reg : clkRegToFreq s.bestReg = freq

/-- **After some tries**: an exact match, or one that is at least as good as
any of them and as the one before. -/
def Found (freq : ℕ) (tried : ℕ → Prop) (s t : Search) : Prop :=
  Exact freq t ∨ Searching freq t ∧ s.bestFreq ≤ t.bestFreq ∧ ∀ v, tried v → v ≤ freq →
    (v : ℤ) ≤ t.bestFreq

variable {freq calN : ℕ} {s : Search}

theorem distance_eq {calFreq : ℤ} (hfreq : freq < systemClock) (hlow : 0 ≤ calFreq)
    (hle : calFreq ≤ freq) :
    distance freq calFreq = freq - calFreq := by
  unfold systemClock at hfreq
  unfold distance
  omega

/-- Nothing is lost by the further tries. -/
theorem Found.cons {tried tried' : ℕ → Prop} {r t : Search} (h : Found freq tried s t)
    (hbest : r.bestFreq ≤ s.bestFreq)
    (htried : ∀ v, tried' v → v ≤ freq → tried v ∨ (v : ℤ) ≤ s.bestFreq) :
    Found freq tried' r t := by
  rcases h with hexact | ⟨hsearching, hmono, hall⟩
  · exact Or.inl hexact
  · refine Or.inr ⟨hsearching, hbest.trans hmono, fun v hv hle => ?_⟩
    rcases htried v hv hle with h | h
    · exact hall v h hle
    · exact h.trans hmono

/-- **The inner loop.** -/
theorem searchPre_found (hfreq : freq < systemClock)
    (hN : 1 ≤ calN ∧ calN ≤ 63) {variants : List ℤ}
    (hvariants : ∀ j ∈ variants, -1 ≤ j ∧ j ≤ 2) (hs : Searching freq s) :
    Found freq (fun v => ∃ j ∈ variants, v = clkRegToFreq (variant freq calN j)) s
      (searchPre freq calN variants s) := by
  induction variants generalizing s with
  | nil =>
    refine Or.inr ⟨hs, le_rfl, ?_⟩
    rintro v ⟨j, hj, -⟩
    cases hj
  | cons j variants ih =>
    obtain ⟨hj, hvariants⟩ := List.forall_mem_cons.mp hvariants
    have hregN : 1 ≤ (variant freq calN j).regN.toNat := by
      rw [(variant_fields freq hN.2 hj.1 hj.2).1]
      exact hN.1
    have hle := clkRegToFreq_le (variant freq calN j)
    have hfreq' : freq < 80000000 := hfreq
    -- what is left to try, from any state on
    have hrest : ∀ t : Search, Searching freq t → s.bestFreq ≤ t.bestFreq →
        (clkRegToFreq (variant freq calN j) ≤ freq → (clkRegToFreq (variant freq calN j) : ℤ) ≤
          t.bestFreq) →
        Found freq (fun v => ∃ i ∈ j :: variants, v = clkRegToFreq (variant freq calN i)) s
          (searchPre freq calN variants t) := by
      intro t ht hbest hthis
      refine (ih hvariants ht).cons hbest ?_
      rintro v ⟨i, hi, rfl⟩ hv
      rcases List.mem_cons.mp hi with rfl | hi
      · exact Or.inr (hthis hv)
      · exact Or.inl ⟨i, hi, rfl⟩
    unfold searchPre
    dsimp only
    rw [int32_of_lt (by omega) (by omega), int32_of_lt (by omega) (by omega)]
    by_cases hexact : (clkRegToFreq (variant freq calN j) : ℤ) = freq
    · rw [if_pos hexact]
      exact Or.inl ⟨hexact, hregN, Int.ofNat.inj hexact⟩
    · rw [if_neg hexact]
      by_cases hbelow : (clkRegToFreq (variant freq calN j) : ℤ) < freq
      · rw [if_pos hbelow, distance_eq hfreq (Int.natCast_nonneg _) hbelow.le,
          distance_eq hfreq hs.nonneg hs.below.le]
        by_cases hbetter : (freq : ℤ) - clkRegToFreq (variant freq calN j) < freq - s.bestFreq
        · rw [if_pos hbetter]
          refine hrest _ ⟨hexact, Int.natCast_nonneg _, hbelow, fun _ => ⟨hregN, rfl⟩⟩ ?_
            fun _ =>
            le_rfl
          dsimp only
          omega
        · rw [if_neg hbetter]
          refine hrest _ ⟨hexact, hs.nonneg, hs.below, hs.reg⟩ le_rfl fun _ => ?_
          dsimp only
          omega
      · rw [if_neg hbelow]
        exact hrest _ ⟨hexact, hs.nonneg, hs.below, hs.reg⟩ le_rfl fun hv => by omega

/-- **The outer loop.** -/
theorem searchN_found (hfreq : freq < systemClock) {ns : List ℕ}
    (hns : ∀ n ∈ ns, 1 ≤ n ∧ n ≤ 63)
    (hs : Searching freq s) :
    Found freq (fun v => ∃ n ∈ ns, ∃ j ∈ preVariants, v = clkRegToFreq (variant freq n j)) s
      (searchN freq ns s) := by
  induction ns generalizing s with
  | nil =>
    refine Or.inr ⟨hs, le_rfl, ?_⟩
    rintro v ⟨n, hn, -⟩
    cases hn
  | cons n ns ih =>
    obtain ⟨hn, hns⟩ := List.forall_mem_cons.mp hns
    have hfreq' : freq < 80000000 := hfreq
    have hvariants : ∀ j ∈ preVariants, -1 ≤ j ∧ j ≤ 2 := by decide
    have hpre := searchPre_found hfreq hn hvariants hs
    unfold searchN
    dsimp only
    rw [int32_of_lt (by omega) (by omega)]
    generalize searchPre freq n preVariants s = t at hpre
    rcases hpre with hexact | ⟨hsearching, hmono, hall⟩
    · rw [if_pos hexact.calFreq]
      exact Or.inl hexact
    · rw [if_neg hsearching.calFreq]
      refine (ih hns hsearching).cons hmono ?_
      rintro v ⟨i, hi, j, hj, rfl⟩ hv
      rcases List.mem_cons.mp hi with rfl | hi
      · exact Or.inr (hall _ ⟨j, hj, rfl⟩ hv)
      · exact Or.inl ⟨i, hi, j, hj, rfl⟩

/-- Through all second divisors, from where there is no match, the best frequency is found. -/
theorem searchN_isGreatest (hlow : 152 ≤ freq) (hfreq : freq < systemClock) {ns : List ℕ}
    (hns : ∀ n, n ∈ ns ↔ 1 ≤ n ∧ n ≤ 63) (hs : Searching freq s) :
    IsGreatest (frequencies freq) (clkRegToFreq (searchN freq ns s).bestReg) := by
  have hfound := searchN_found hfreq (fun n hn => (hns n).mp hn) hs
  generalize searchN freq ns s = t at hfound
  rcases hfound with hexact | ⟨hsearching, -, hall⟩
  · refine ⟨mem_frequencies hexact.regN hexact.reg.le, ?_⟩
    rintro v ⟨n, p, -, -, -, -, hle⟩
    rw [hexact.reg]
    exact hle
  · have hbest : ∀ v ∈ frequencies freq, (v : ℤ) ≤ t.bestFreq := by
      rintro v ⟨n, p, hn, hn', hp, rfl, hle⟩
      obtain ⟨j, hj, hbetter, hnot⟩ := exists_variant (by omega) hn' hp hle
      exact (Int.ofNat_le.mpr hbetter).trans
        (hall _ ⟨n, (hns n).mpr ⟨hn, hn'⟩, j, hj, rfl⟩ hnot)
    -- the smallest frequency there is is one
    have hvalue : 152 = systemClock / ((8191 + 1) * (63 + 1)) := by decide
    have hsmall : ((152 : ℕ) : ℤ) ≤ t.bestFreq :=
      hbest 152 ⟨63, 8191, by decide, le_rfl, le_rfl, hvalue, hlow⟩
    obtain ⟨hregN, hreg⟩ := hsearching.reg (by omega)
    have hbelow := hsearching.below
    refine ⟨mem_frequencies hregN (by omega), fun v hv => ?_⟩
    have hle := hbest v hv
    omega

/-- **The search finds the best frequency there is.** -/
theorem search_isGreatest (hlow : 152 ≤ freq) (hfreq : freq < systemClock) :
    IsGreatest (frequencies freq) (clkRegToFreq (search freq).bestReg) := by
  refine searchN_isGreatest hlow hfreq (fun n => ?_) ⟨?_, le_rfl, ?_, fun h => absurd rfl h⟩
  · rw [List.mem_range'_1]
    omega
  · dsimp only
    omega
  · dsimp only
    omega

/-! ## What is remembered -/

/-- **The register that is remembered** is what the search finds for the
frequency that is. -/
def Remembered (s : Clocks) : Prop :=
  152 ≤ s.lastSetFrequency.toNat →
    s.lastSetRegister = (search s.lastSetFrequency.toNat).bestReg.regValue

theorem remembered_setFrequency (bus : BitVec 8) (freq : BitVec 32) {s : Clocks}
    (hs : Remembered s) :
    Remembered (setFrequency bus freq s) := by
  unfold setFrequency
  split
  · exact hs
  · split
    · exact hs
    · dsimp only
      split
      · rename_i hsmall
        intro hlow
        exact absurd hlow (Nat.not_le.mpr hsmall)
      · intro _
        exact Function.update_self _ _ _

theorem remembered_run (regs : ℕ → BitVec 32) (calls : List Call) :
    Remembered (run regs calls) := by
  unfold run
  have hfold : ∀ s, Remembered s → Remembered (calls.foldl call s) := by
    induction calls with
    | nil => exact fun s hs => hs
    | cons c calls ih =>
      intro s hs
      refine ih (call s c) ?_
      cases c with
      | setFrequency bus freq => exact remembered_setFrequency bus freq hs
      | setClockDivider bus clockDiv => exact hs
  refine hfold _ fun hlow => absurd hlow ?_
  show ¬ 152 ≤ (0 : BitVec 32).toNat
  decide

/-- **The register that is set**, searched for or remembered. -/
theorem setFrequency_regs {s : Clocks} (hs : Remembered s) (bus : BitVec 8) {freq : BitVec 32}
    (hlow : 152 ≤ freq.toNat) (hfreq : freq.toNat < systemClock) :
    (setFrequency bus freq s).regs (spiclk bus) = (search freq.toNat).bestReg.regValue := by
  unfold setFrequency
  rw [if_neg (Nat.not_le.mpr hfreq)]
  by_cases hsame : s.lastSetFrequency = freq ∧ s.lastSetRegister = s.regs (spiclk bus)
  · rw [if_pos hsame, ← hsame.2, ← hsame.1]
    exact hs (hsame.1 ▸ hlow)
  · have hmin : clkRegToFreq (spiClk 0x7FFFF000) = 152 := by decide
    rw [if_neg hsame]
    dsimp only
    rw [hmin, if_neg (Nat.not_lt.mpr hlow)]
    exact Function.update_self _ _ _

/-- **The clock is the best one** that is not too fast, after any calls on any
buses. -/
theorem setFrequency_isGreatest (regs : ℕ → BitVec 32) (calls : List Call) (bus : BitVec 8)
    {freq : BitVec 32} (hlow : 152 ≤ freq.toNat) (hfreq : freq.toNat < systemClock) :
    IsGreatest (frequencies freq.toNat)
      (clkRegToFreq (spiClk ((setFrequency bus freq (run regs calls)).regs (spiclk bus)))) := by
  rw [setFrequency_regs (remembered_run regs calls) bus hlow hfreq, spiClk_regValue]
  exact search_isGreatest hlow hfreq

/-- A million on the bus that had it, after a divider was set on the other. -/
theorem setFrequency_isGreatest_again :
    IsGreatest (frequencies 1000000)
      (clkRegToFreq (spiClk ((setFrequency 3 1000000 (run (fun _ => 0)
        [.setFrequency 3 1000000, .setClockDivider 2 0x80000000])).regs (spiclk 3)))) :=
  setFrequency_isGreatest _ _ 3 (by decide) (by decide)

end SpiClock
