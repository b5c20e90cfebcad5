import Mathlib.Data.List.Basic
import Esp31b.Block
import Esp31b.Spi

/-!
# Blocks and patterns on the SPI bus

`writeBytes` copies a block to the data registers, in pieces of 64 bytes, and what it puts
on the wire is the block (`Spi.map_writeBytes`).

`writePattern` sends a pattern again and again, in bursts of as many as there is room for
in a buffer of 64 bytes. It subtracts 64 from what is left to send with every burst but
the last, and that is what was sent if the pattern fills the buffer. Otherwise some of the
output is missing, unless there is one burst only (`Spi.exact_iff`).
-/

namespace Spi

/-! ## Blocks -/

/-- Word `i` of a block, read from memory. -/
def word (data : List (BitVec 8)) (i : ℕ) : Option (BitVec 32) :=
  match Block.read data (4 * i) 4 with
  | some [b₀, b₁, b₂, b₃] => some (b₃ ++ b₂ ++ b₁ ++ b₀)
  | _ => none

/-- The words of a block go to the data registers, from the `i`-th on. -/
def fill (data : List (BitVec 8)) : ℕ → ℕ → Bus → Option Bus
  | 0, _, b => some b
  | dataSize + 1, i, b => do
    let x ← word data i
    fill data dataSize (i + 1) (setW i x b)

variable (answer : List (BitVec 8) → ℕ → BitVec 32)

def writeBytes_ (data : List (BitVec 8)) (size : ℕ) (b : Bus) : Option Bus := do
  let b ← fill data ((size + 3) / 4) 0 (setDataBits (BitVec.ofNat 16 (size * 8)) b)
  some (shift answer b)

def writeBytes (data : List (BitVec 8)) (size : ℕ) (b : Bus) : Option Bus :=
  if size = 0 then some b
  else if size > 64 then do
    let b ← writeBytes_ answer data 64 b
    writeBytes (data.drop 64) (size - 64) b
  else writeBytes_ answer data size b
termination_by size

/-- **Bytes are appended to the output.** -/
def appendBytes (data : List (BitVec 8)) (size : ℕ) (out : List (BitVec 8)) :
    Option (List (BitVec 8)) :=
  if size ≤ data.length then some (out ++ data.take size) else none

/-! ## Patterns -/

/-- The bytes of the pattern from the `i`-th on go to the buffer. -/
def copyBytes (data : List (BitVec 8)) : ℕ → ℕ → ℕ → List (BitVec 8) → Option (List (BitVec 8))
  | 0, _, _, buffer => some buffer
  | dataSize + 1, i, p, buffer => do
    let x ← data[i]?
    let buffer ← Block.set buffer p x
    copyBytes data dataSize (i + 1) (p + 1) buffer

/-- The pattern goes to the buffer so many times. -/
def copyPattern (data : List (BitVec 8)) (size : ℕ) :
    ℕ → ℕ → List (BitVec 8) → Option (List (BitVec 8))
  | 0, _, buffer => some buffer
  | reps + 1, p, buffer => do
    let buffer ← copyBytes data size 0 p buffer
    copyPattern data size reps (p + size) buffer

section

variable {σ : Type} (send : List (BitVec 8) → ℕ → σ → Option σ)

/-- **`writePattern_`**, with the buffer as it is found on the stack. -/
def writePattern_ (buffer data : List (BitVec 8)) (size reps : ℕ) (s : σ) : Option σ := do
  let buffer ← copyPattern data size reps 0 buffer
  send buffer (size * reps % 2 ^ 8) s

/-- The bursts with `byte` bytes to go. -/
def bursts (stack : ℕ → List (BitVec 8)) (data : List (BitVec 8)) (size r byte : ℕ) (s : σ) :
    Option σ :=
  if byte = 0 then some s
  else if byte > 64 then do
    let s ← writePattern_ send (stack byte) data size r s
    bursts stack data size r (byte - 64) s
  else writePattern_ send (stack byte) data size (byte / size) s
termination_by byte

/-- **`writePattern`** over some `writeBytes`, with what is on the stack at every burst;
`none` for an access outside of a buffer and for a division by zero. -/
def writePattern (stack : ℕ → List (BitVec 8)) (data : List (BitVec 8)) (size reps : ℕ)
    (s : σ) : Option σ :=
  if size > 64 then some s
  else if size = 0 then none
  else bursts send stack data size (64 / size) (size * reps % 2 ^ 32) s

end

/-- **The output is exact**, whatever is on the stack. -/
def Exact (data : List (BitVec 8)) (reps : ℕ) : Prop :=
  ∀ stack : ℕ → List (BitVec 8), (∀ byte, (stack byte).length = 64) → ∀ out,
    writePattern appendBytes stack data data.length reps out =
      some (out ++ (List.replicate reps data).flatten)

variable {answer : List (BitVec 8) → ℕ → BitVec 32} {data buffer : List (BitVec 8)} {b c : Bus}
  {i n p : ℕ}

/-! ## Blocks on the wire -/

theorem byteOf_append {w : ℕ} (x : BitVec w) (y : BitVec 8) (j : ℕ) :
    byteOf (x ++ y) j = if j = 0 then y else byteOf x (j - 1) := by
  refine BitVec.eq_of_getLsbD_eq fun k hk => ?_
  split
  · rename_i hzero
    rw [byteOf, BitVec.getLsbD_extractLsb', decide_eq_true hk, Bool.true_and,
      BitVec.getLsbD_append, if_pos (by omega)]
    exact congrArg _ (by omega)
  · rw [byteOf, byteOf, BitVec.getLsbD_extractLsb', BitVec.getLsbD_extractLsb',
      decide_eq_true hk, Bool.true_and, BitVec.getLsbD_append, if_neg (by omega), Bool.true_and]
    exact congrArg _ (by omega)

/-- A word of a block has its bytes. -/
theorem word_eq (h : 4 * i + 4 ≤ data.length) :
    ∃ x, word data i = some x ∧ ∀ j < 4, data[4 * i + j]? = some (byteOf x j) := by
  have hlength : ((data.drop (4 * i)).take 4).length = 4 := by
    rw [List.length_take, List.length_drop]
    omega
  obtain ⟨b₀, b₁, b₂, b₃, hbytes⟩ := List.length_eq_four.mp hlength
  refine ⟨b₃ ++ b₂ ++ b₁ ++ b₀, ?_, fun j hj => ?_⟩
  · unfold word
    rw [Block.read_eq h, hbytes]
  · have hget : data[4 * i + j]? = [b₀, b₁, b₂, b₃][j]? := by
      rw [← hbytes, List.getElem?_take_of_lt hj, List.getElem?_drop]
    rw [hget]
    match j, hj with
    | 0, _ | 1, _ | 2, _ | 3, _ => simp [byteOf_append, byteOf_zero]

theorem word_eq_none (h : data.length < 4 * i + 4) : word data i = none := by
  unfold word
  rw [show Block.read data (4 * i) 4 = none from if_neg (by omega)]

/-- **What is in the data registers**, if the words are in the block. -/
theorem fill_cases (data : List (BitVec 8)) (n i : ℕ) (b : Bus) :
    (n = 0 ∨ 4 * (i + n) ≤ data.length) ∧
        (∃ c, fill data n i b = some c ∧ c.spic = b.spic ∧ c.spiu1 = b.spiu1 ∧ c.wire = b.wire ∧
          (∀ j, i ≤ j → j < i + n → word data j = some (c.spiw j)) ∧
          ∀ j < i, c.spiw j = b.spiw j) ∨
      data.length < 4 * (i + n) ∧ fill data n i b = none := by
  induction n generalizing i b with
  | zero => exact Or.inl ⟨Or.inl rfl, b, rfl, rfl, rfl, rfl, fun j h h' => by omega,
      fun _ _ => rfl⟩
  | succ n ih =>
    by_cases hword : 4 * i + 4 ≤ data.length
    · obtain ⟨x, hx, -⟩ := word_eq hword
      rcases ih (i + 1) (setW i x b) with ⟨hroom, c, hc, hspic, hspiu1, hwire, hin, hbefore⟩ |
        ⟨hroom, hnone⟩
      · refine Or.inl ⟨Or.inr (by omega), c, by rw [fill, hx]; exact hc, hspic, hspiu1, hwire,
          fun j hj hj' => ?_, fun j hj => ?_⟩
        · rcases Nat.eq_or_lt_of_le hj with rfl | hlt
          · rw [hbefore i (by omega), hx]
            exact congrArg some (if_pos rfl).symm
          · exact hin j hlt (by omega)
        · rw [hbefore j (by omega)]
          exact if_neg (by omega)
      · exact Or.inr ⟨by omega, by rw [fill, hx]; exact hnone⟩
    · exact Or.inr ⟨by omega, by rw [fill, word_eq_none (by omega)]; rfl⟩

/-- **Up to 64 bytes** are appended to what is on the wire. -/
theorem map_writeBytes_ (h4 : 4 ∣ data.length) (hpos : 0 < n) (hn : n ≤ 64) (b : Bus) :
    (writeBytes_ answer data n b).map Bus.wire = appendBytes data n b.wire := by
  have hbits : (BitVec.ofNat 16 (n * 8)).toNat = 8 * n := by
    rw [BitVec.toNat_ofNat, Nat.mod_eq_of_lt (by omega), Nat.mul_comm]
  have hlength := mosiBits_setDataBits (b := b) (BitVec.ofNat 16 (n * 8)) (by omega)
    (by omega)
  rw [hbits] at hlength
  unfold writeBytes_ appendBytes
  rcases fill_cases data ((n + 3) / 4) 0 (setDataBits (BitVec.ofNat 16 (n * 8)) b) with
    ⟨hroom, c, hc, -, hspiu1, hwire, hin, -⟩ | ⟨hroom, hnone⟩
  · rw [hc, if_pos (by omega)]
    show some (shift answer c).wire = _
    rw [wire_shift (n := n) (by rw [hspiu1]; exact hlength), hwire]
    refine congrArg (fun d => some (b.wire ++ d)) (List.ext_getElem? fun j => ?_)
    rw [List.getElem?_map, List.getElem?_take]
    split
    · rename_i hj
      obtain ⟨x, hx, hbyte⟩ := word_eq (by omega : 4 * (j / 4) + 4 ≤ data.length)
      rw [hin (j / 4) (Nat.zero_le _) (by omega)] at hx
      have hget := hbyte (j % 4) (Nat.mod_lt j (by decide))
      rw [Nat.div_add_mod, ← Option.some.inj hx] at hget
      rw [List.getElem?_range hj, hget]
      rfl
    · rw [List.getElem?_eq_none (by rw [List.length_range]; omega)]
      rfl
  · rw [hnone, if_neg (by omega)]
    rfl

/-- **`writeBytes` appends its bytes** to what is on the wire. -/
theorem map_writeBytes (h4 : 4 ∣ data.length) (n : ℕ) (b : Bus) :
    (writeBytes answer data n b).map Bus.wire = appendBytes data n b.wire := by
  induction n using Nat.strongRecOn generalizing data b with
  | _ n ih =>
    rw [writeBytes]
    split
    · rename_i hzero
      subst hzero
      unfold appendBytes
      rw [if_pos (Nat.zero_le _), List.take_zero, List.append_nil]
      rfl
    · split
      · rename_i hlong
        have hfirst : (writeBytes_ answer data 64 b).map Bus.wire =
            appendBytes data 64 b.wire :=
          map_writeBytes_ h4 (by decide) (by decide) b
        have h4' : 4 ∣ (data.drop 64).length := by
          rw [List.length_drop]
          omega
        unfold appendBytes at hfirst ⊢
        cases hrun : writeBytes_ answer data 64 b with
        | none =>
          rw [hrun] at hfirst
          split at hfirst
          · cases hfirst
          · rw [if_neg (by omega)]
            rfl
        | some c =>
          rw [hrun] at hfirst
          split at hfirst
          · have hrest := ih (n - 64) (by omega) h4' c
            unfold appendBytes at hrest
            show (writeBytes answer (data.drop 64) (n - 64) c).map Bus.wire = _
            rw [hrest, Option.some.inj hfirst, List.append_assoc, List.length_drop]
            have htake : data.take 64 ++ (data.drop 64).take (n - 64) = data.take n := by
              rw [← List.take_add]
              congr 1
              omega
            rw [htake]
            exact if_congr (by omega) rfl rfl
          · cases hfirst
      · exact map_writeBytes_ h4 (by omega) (by omega) b

/-! ## Bursts -/

/-- **A copy of the pattern** goes behind what is in the buffer. -/
theorem exists_copyBytes (hroom : p + n ≤ buffer.length) (hn : i + n ≤ data.length) :
    ∃ out, copyBytes data n i p buffer = some out ∧ out.length = buffer.length ∧
      out.take (p + n) = buffer.take p ++ (data.drop i).take n := by
  induction n generalizing i p buffer with
  | zero => exact ⟨buffer, rfl, rfl, by rw [List.take_zero, List.append_nil]; rfl⟩
  | succ n ih =>
    obtain ⟨x, hx⟩ : ∃ x, data[i]? = some x := ⟨_, List.getElem?_eq_getElem (by omega)⟩
    obtain ⟨c, hc⟩ : ∃ c, Block.set buffer p x = some c := ⟨_, if_pos (by omega)⟩
    have hlength := Block.length_of_set hc
    obtain ⟨out, hout, hsize, htake⟩ := ih (by omega : p + 1 + n ≤ c.length)
      (by omega : i + 1 + n ≤ data.length)
    refine ⟨out, ?_, by omega, ?_⟩
    · rw [copyBytes, hx, Option.bind_eq_bind, Option.bind_some, hc]
      exact hout
    · rw [Nat.add_assoc, Nat.add_comm 1 n] at htake
      have hcons : (data.drop i).take (n + 1) = x :: (data.drop (i + 1)).take n := by
        rw [List.drop_eq_getElem_cons (by omega), List.take_succ_cons]
        rw [List.getElem?_eq_getElem (by omega)] at hx
        rw [Option.some.inj hx]
      rw [htake, Block.take_of_set hc, hcons, List.append_assoc]
      rfl

theorem exists_copyPattern (hroom : p + data.length * n ≤ buffer.length) :
    ∃ out, copyPattern data data.length n p buffer = some out ∧ out.length = buffer.length ∧
      out.take (p + data.length * n) = buffer.take p ++ (List.replicate n data).flatten := by
  induction n generalizing p buffer with
  | zero => exact ⟨buffer, rfl, rfl, by simp⟩
  | succ n ih =>
    rw [Nat.mul_succ] at hroom ⊢
    obtain ⟨c, hc, hlength, htake⟩ := exists_copyBytes
      (by omega : p + data.length ≤ buffer.length) (by omega : 0 + data.length ≤ data.length)
    obtain ⟨out, hout, hsize, hall⟩ :=
      ih (by omega : p + data.length + data.length * n ≤ c.length)
    refine ⟨out, ?_, by omega, ?_⟩
    · rw [copyPattern, hc]
      exact hout
    · rw [List.drop_zero, List.take_length] at htake
      rw [Nat.add_comm (data.length * n), ← Nat.add_assoc, hall, htake, List.append_assoc,
        List.replicate_succ, List.flatten_cons]

/-- **A burst** of patterns that fit into the buffer. -/
theorem burst_eq (hbuffer : buffer.length = 64) (hroom : data.length * n ≤ 64)
    (out : List (BitVec 8)) :
    writePattern_ appendBytes buffer data data.length n out =
      some (out ++ (List.replicate n data).flatten) := by
  obtain ⟨c, hc, hlength, htake⟩ := exists_copyPattern
    (by omega : 0 + data.length * n ≤ buffer.length)
  rw [Nat.zero_add, List.take_zero, List.nil_append] at htake
  unfold writePattern_
  rw [hc, Nat.mod_eq_of_lt (by omega : data.length * n < 2 ^ 8)]
  show appendBytes c (data.length * n) out = _
  unfold appendBytes
  rw [if_pos (by omega), htake]

/-- **How many patterns are sent** with `byte` bytes to go. -/
def sent (size byte : ℕ) : ℕ :=
  if byte > 64 then 64 / size + sent size (byte - 64) else byte / size

theorem sent_mul_le (size byte : ℕ) : sent size byte * size ≤ byte := by
  induction byte using Nat.strongRecOn with
  | _ byte ih =>
    rw [sent]
    split
    · rw [Nat.add_mul]
      have := ih (byte - 64) (by omega)
      have := Nat.div_mul_le_self 64 size
      omega
    · exact Nat.div_mul_le_self byte size

/-- All of them are if the pattern fills the buffer. -/
theorem sent_eq_of_dvd {size : ℕ} (h : size ∣ 64) (byte : ℕ) :
    sent size byte = byte / size := by
  have hpos : 0 < size := Nat.pos_of_dvd_of_pos h (by decide)
  obtain ⟨r, hr⟩ := h
  induction byte using Nat.strongRecOn with
  | _ byte ih =>
    rw [sent]
    split
    · rename_i hlong
      rw [ih (byte - 64) (by omega), hr, Nat.mul_div_cancel_left r hpos]
      have hsplit : byte = byte - size * r + size * r := by omega
      conv_rhs => rw [hsplit, Nat.add_mul_div_left _ _ hpos]
      omega
    · rfl

/-- Otherwise the first burst that is not the last falls short. -/
theorem sent_mul_lt {size byte : ℕ} (h : ¬ size ∣ 64) (hlong : 64 < byte) :
    sent size byte * size < byte := by
  rw [sent, if_pos hlong, Nat.add_mul]
  have hrest := sent_mul_le size (byte - 64)
  have hburst := Nat.div_mul_le_self 64 size
  have hne : 64 / size * size ≠ 64 := fun heq => h ⟨64 / size, by rw [Nat.mul_comm, heq]⟩
  omega

theorem bursts_eq {stack : ℕ → List (BitVec 8)} (hstack : ∀ byte, (stack byte).length = 64)
    (byte : ℕ) (out : List (BitVec 8)) :
    bursts appendBytes stack data data.length (64 / data.length) byte out =
      some (out ++ (List.replicate (sent data.length byte) data).flatten) := by
  induction byte using Nat.strongRecOn generalizing out with
  | _ byte ih =>
    rw [bursts, sent]
    split
    · rename_i hzero
      subst hzero
      simp
    · split
      · rw [burst_eq (hstack byte) (Nat.mul_div_le 64 data.length)]
        show bursts _ _ _ _ _ _ _ = _
        rw [ih (byte - 64) (by omega), List.replicate_add, List.flatten_append,
          List.append_assoc]
      · rw [burst_eq (hstack byte) (Nat.le_trans (Nat.mul_div_le byte data.length) (by omega))]

theorem mul_length_of_flatten {m n : ℕ}
    (h : [] ++ (List.replicate m data).flatten = [] ++ (List.replicate n data).flatten) :
    m * data.length = n * data.length := by
  have hlength := congrArg List.length h
  simpa only [List.nil_append, List.length_flatten, List.map_replicate,
    List.sum_replicate_nat] using hlength

/-- **`writePattern` is exact** if the pattern fills the buffer, or the output fits into it. -/
theorem exact_iff {reps : ℕ} (hpos : data ≠ []) (hsize : data.length ≤ 64)
    (hbytes : data.length * reps < 2 ^ 32) :
    Exact data reps ↔ data.length ∣ 64 ∨ data.length * reps ≤ 64 := by
  have hlength := List.length_pos_iff.mpr hpos
  have hrun : ∀ stack : ℕ → List (BitVec 8), (∀ byte, (stack byte).length = 64) → ∀ out,
      writePattern appendBytes stack data data.length reps out =
        some (out ++ (List.replicate (sent data.length (data.length * reps))
        data).flatten) := by
    intro stack hstack out
    unfold writePattern
    rw [if_neg (by omega), if_neg (by omega), Nat.mod_eq_of_lt hbytes, bursts_eq hstack]
  constructor
  · refine fun h => Decidable.or_iff_not_imp_left.mpr fun hdvd => ?_
    by_contra hshort
    have hout := h (fun _ => List.replicate 64 0) (fun _ => List.length_replicate) []
    rw [hrun _ (fun _ => List.length_replicate)] at hout
    have hmul := mul_length_of_flatten (Option.some.inj hout)
    have hlt := sent_mul_lt hdvd (Nat.not_le.mp hshort)
    rw [hmul, Nat.mul_comm] at hlt
    exact absurd hlt (Nat.lt_irrefl _)
  · intro h stack hstack out
    have hsent : sent data.length (data.length * reps) = reps := by
      have hdiv : data.length * reps / data.length = reps :=
        Nat.mul_div_cancel_left reps hlength
      rcases h with hdvd | hshort
      · rw [sent_eq_of_dvd hdvd, hdiv]
      · rw [sent, if_neg (by omega), hdiv]
    rw [hrun stack hstack, hsent]

/-! ## On the wire -/

theorem length_of_copyBytes {c : List (BitVec 8)} (h : copyBytes data n i p buffer = some c) :
    c.length = buffer.length := by
  induction n generalizing i p buffer with
  | zero => cases h; rfl
  | succ n ih =>
    obtain ⟨x, -, h⟩ := Option.bind_eq_some_iff.mp h
    obtain ⟨d, hd, h⟩ := Option.bind_eq_some_iff.mp h
    rw [ih h, Block.length_of_set hd]

theorem length_of_copyPattern {size : ℕ} {c : List (BitVec 8)}
    (h : copyPattern data size n p buffer = some c) : c.length = buffer.length := by
  induction n generalizing p buffer with
  | zero => cases h; rfl
  | succ n ih =>
    obtain ⟨d, hd, h⟩ := Option.bind_eq_some_iff.mp h
    rw [ih h, length_of_copyBytes hd]

section

variable {σ τ : Type} {send : List (BitVec 8) → ℕ → σ → Option σ}
  {send' : List (BitVec 8) → ℕ → τ → Option τ} {f : σ → τ}

theorem map_burst
    (hsend : ∀ buffer, buffer.length = 64 → ∀ n s, (send buffer n s).map f =
      send' buffer n (f s))
    (hbuffer : buffer.length = 64) (data : List (BitVec 8)) (size reps : ℕ) (s : σ) :
    (writePattern_ send buffer data size reps s).map f =
      writePattern_ send' buffer data size reps (f s) := by
  unfold writePattern_
  cases hc : copyPattern data size reps 0 buffer with
  | none => rfl
  | some c => exact hsend c ((length_of_copyPattern hc).trans hbuffer) _ s

/-- **What is sent does not depend on how**: `writePattern` over some `writeBytes`, and over
what is seen of it. -/
theorem map_writePattern
    (hsend : ∀ buffer, buffer.length = 64 → ∀ n s, (send buffer n s).map f =
      send' buffer n (f s))
    {stack : ℕ → List (BitVec 8)} (hstack : ∀ byte, (stack byte).length = 64)
    (data : List (BitVec 8)) (size reps : ℕ) (s : σ) :
    (writePattern send stack data size reps s).map f =
      writePattern send' stack data size reps (f s) := by
  have hbursts : ∀ r byte s, (bursts send stack data size r byte s).map f =
      bursts send' stack data size r byte (f s) := by
    intro r byte
    induction byte using Nat.strongRecOn with
    | _ byte ih =>
      intro s
      rw [bursts, bursts]
      split
      · rfl
      · split
        · rw [← map_burst hsend (hstack byte)]
          cases writePattern_ send (stack byte) data size r s with
          | none => rfl
          | some t => exact ih (byte - 64) (by omega) t
        · exact map_burst hsend (hstack byte) data size _ s
  unfold writePattern
  split
  · rfl
  · split
    · rfl
    · exact hbursts _ _ s

end

/-- **On the wire**: the output of `writePattern` is what the controller shifts out. -/
theorem wire_writePattern {stack : ℕ → List (BitVec 8)}
    (hstack : ∀ byte, (stack byte).length = 64) (data : List (BitVec 8))
    (size reps : ℕ) (b : Bus) :
    (writePattern (writeBytes answer) stack data size reps b).map Bus.wire =
      writePattern appendBytes stack data size reps b.wire :=
  map_writePattern (fun buffer hbuffer n s => map_writeBytes (by omega : 4 ∣ buffer.length) n s)
    hstack data size reps b

/-- Of 22 patterns of three bytes, 21 are sent at once, and none for the last two bytes. -/
theorem not_exact_three : ¬ Exact [1, 2, 3] 22 := by
  intro h
  have hout := h (fun _ => List.replicate 64 0) (fun _ => List.length_replicate) []
  have hrun : writePattern appendBytes (fun _ => List.replicate 64 0) [1, 2, 3] 3 22 [] =
      some ([] ++ (List.replicate (sent 3 66) [1, 2, 3]).flatten) :=
    bursts_eq (fun _ => List.length_replicate) 66 []
  have hmul := mul_length_of_flatten (Option.some.inj (hrun.symm.trans hout))
  have hlt : sent 3 66 * 3 < 66 := sent_mul_lt (by decide) (by decide)
  exact Nat.ne_of_lt hlt hmul

theorem exact_four : Exact [1, 2, 3, 4] 22 :=
  (exact_iff (by decide) (by decide) (by decide)).mpr (Or.inl (by decide))

end Spi
