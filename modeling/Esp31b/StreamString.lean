import Esp31b.StringEditing
import Esp31b.StringHolding
import Esp31b.Transducer

/-!
# A stream over a `String`

A `StreamString` is written at the end of a `String` and read from its start. The first byte is
taken out by `remove`, which moves the others to the front with `strncpy`; and that stops at the
first NUL it meets, and clears the rest.

So the stream is a queue of bytes as long as no byte but NULs stands behind a NUL when the one
in front is read (`StreamString.serves_of_run`). Where another one does, what is behind the NUL
is lost, though it is still counted (`StreamString.follows_read_iff`).
-/

namespace StringObject

/-- `charAt`: 0 outside. -/
def charAt (s : StringObject) (loc : ℕ) : Option UInt8 :=
  match s.buffer with
  | none => some 0
  | some b => if loc ≥ s.len then some 0 else b[loc]?

end StringObject

namespace StreamString

open StringObject

/-! ## The functions -/

/-- `write(data, size)`: the bytes at a pointer, or a null pointer. -/
def writeFrom (s : StringObject) (data : Option (List UInt8)) (malloc : Bool) :
    Option (ℕ × StringObject) :=
  match data with
  | none => some (0, s)
  | some data =>
    if data.length = 0 then some (0, s)
    else do
      let (reserved, s) ← s.reserve ((s.len + data.length + 1) % 2 ^ 32) malloc
      if reserved then
        let s ← s.store s.len data
        let len := (s.len + data.length) % 2 ^ 32
        let s ← store { s with len := len } len [0]
        return (data.length, s)
      else return (0, s)

/-- `write(data)`, of one byte. -/
def write (s : StringObject) (data : UInt8) (malloc : Bool) : Option (ℕ × StringObject) := do
  let (concatenated, s) ← s.concatChar data malloc
  return (concatenated.toNat, s)

/-- `available`. -/
def available (s : StringObject) : ℤ := int32 s.len

/-- `read`. -/
def read (s : StringObject) : Option (ℤ × StringObject) :=
  if s.len ≠ 0 then do
    let c ← s.charAt 0
    let s ← s.remove 0 1
    return (c.toNat, s)
  else some (-1, s)

/-- `peek`. -/
def peek (s : StringObject) : Option ℤ :=
  if s.len ≠ 0 then do
    let c ← s.charAt 0
    return c.toNat
  else some (-1)

/-- The calls. -/
inductive Call where
  | write (data : UInt8)
  | writeFrom (data : Option (List UInt8))
  | read
  | peek
  | available
  deriving DecidableEq

/-- **The stream**, with memory. -/
def stream : Transducer StringObject Call ℤ where
  step s
    | .write data => (StreamString.write s data true).map fun r => (r.1, r.2)
    | .writeFrom data => (StreamString.writeFrom s data true).map fun r => (r.1, r.2)
    | .read => StreamString.read s
    | .peek => (StreamString.peek s).map fun c => (c, s)
    | .available => some (StreamString.available s, s)

/-- A new one: `String("")`. -/
def empty : Option StringObject := ofText (some []) true

/-! ## A queue of bytes -/

/-- **First in, first out**: bytes that are written are all taken, and the next one to be read
is the first. -/
def fifo : Transducer (List UInt8) Call ℤ where
  step
    | q, .write data => some (1, q ++ [data])
    | q, .writeFrom none => some (0, q)
    | q, .writeFrom (some data) => some (data.length, q ++ data)
    | [], .read => some (-1, [])
    | c :: q, .read => some (c.toNat, q)
    | [], .peek => some (-1, [])
    | c :: q, .peek => some (c.toNat, c :: q)
    | q, .available => some (q.length, q)

/-- **What a call must find**: where a byte is read, no other byte behind a NUL among those that
stay. What is written must have a length that `available` can say, with its NUL. -/
def Keeps (q : List UInt8) : Call → Prop
  | .write _ => q.length + 1 < 2 ^ 31 - 1
  | .writeFrom data => q.length + (data.getD []).length < 2 ^ 31 - 1
  | .read => WString.NulsLast q.tail
  | .peek | .available => True

instance (q : List UInt8) : (c : Call) → Decidable (Keeps q c)
  | .write _ => inferInstanceAs (Decidable (_ < _))
  | .writeFrom _ => inferInstanceAs (Decidable (_ < _))
  | .read => inferInstanceAs (Decidable (WString.NulsLast _))
  | .peek => inferInstanceAs (Decidable True)
  | .available => inferInstanceAs (Decidable True)

/-- **The string has these bytes**, in a block that is cleared behind them. -/
def Represents (s : StringObject) (q : List UInt8) : Prop :=
  q.length < 2 ^ 31 - 1 ∧ ∃ k, s = holding q k ∧ q.length ≤ k

/-- A call is answered alike, and what it leaves is what the queue is. -/
def Follows (q : List UInt8) (s : StringObject) (c : Call) : Prop :=
  ∃ o q' s', fifo.step q c = some (o, q') ∧ stream.step s c = some (o, s') ∧ Represents s' q'

variable {q r d : List UInt8} {s : StringObject} {k : ℕ} {c : UInt8}

/-! ## Writing -/

/-- **Bytes are put behind the contents.** -/
theorem store_data_holding (h : q.length + d.length ≤ k) :
    (holding q k).store q.length d =
      some { holding q k with buffer := (holding (q ++ d) k).buffer } := by
  have hwrite := Block.write_append q []
    (show d.length ≤ (List.replicate (k + 1 - q.length) (0 : UInt8)).length by
      rw [List.length_replicate]; omega)
  rw [List.append_nil, List.append_nil, List.drop_replicate, ← List.append_assoc] at hwrite
  have hrest : k + 1 - q.length - d.length = k + 1 - (q ++ d).length := by
    rw [List.length_append]
    omega
  rw [hrest] at hwrite
  unfold store holding
  dsimp only
  rw [Option.bind_eq_bind, Option.bind_some, hwrite]
  rfl

/-- There is a NUL behind them. -/
theorem store_nul_holding (h : q.length ≤ k) :
    (holding q k).store q.length [0] = some (holding q k) := by
  refine store_self rfl ?_ fun i hi => ?_
  · rw [List.length_append, List.length_replicate, List.length_singleton]
    omega
  · obtain rfl : i = 0 := by
      rw [List.length_singleton] at hi
      omega
    show (q ++ List.replicate (k + 1 - q.length) 0)[q.length]? = some 0
    rw [List.getElem?_append_right le_rfl, Nat.sub_self, List.getElem?_replicate,
      if_pos (by omega)]

theorem follows_write (hs : Represents s q) (c : UInt8) (h : q.length + 1 < 2 ^ 31 - 1) :
    Follows q s (.write c) := by
  obtain ⟨-, k, rfl, hk⟩ := hs
  obtain ⟨k', hconcat, hk'⟩ := exists_concatChar_holding hk (by omega) c
  refine ⟨1, q ++ [c], holding (q ++ [c]) k', rfl, ?_, ?_, k', rfl, hk'⟩
  · show (StreamString.write _ _ _).map _ = _
    unfold StreamString.write
    rw [hconcat]
    rfl
  · rw [List.length_append, List.length_singleton]
    exact h

theorem follows_writeFrom (hs : Represents s q) (data : Option (List UInt8))
    (h : q.length + (data.getD []).length < 2 ^ 31 - 1) : Follows q s (.writeFrom data) := by
  cases data with
  | none => exact ⟨0, q, s, rfl, rfl, hs⟩
  | some d =>
    have hd : q.length + d.length < 2 ^ 31 - 1 := h
    by_cases hempty : d.length = 0
    · obtain rfl := List.length_eq_zero_iff.mp hempty
      have hfifo : fifo.step q (.writeFrom (some [])) = some (0, q) := by
        show some (_, q ++ []) = _
        rw [List.append_nil]
        rfl
      exact ⟨0, q, s, hfifo, rfl, hs⟩
    · obtain ⟨-, k, rfl, hk⟩ := hs
      obtain ⟨k', hreserve, hk'⟩ :=
        exists_reserve_holding hk (by omega)
          (show q.length + d.length + 1 + 16 < 2 ^ 32 by omega)
      have hlength : (q ++ d).length = q.length + d.length := List.length_append
      refine ⟨d.length, q ++ d, holding (q ++ d) k', rfl, ?_, by omega, k', rfl, by omega⟩
      show (StreamString.writeFrom _ _ _).map _ = _
      unfold StreamString.writeFrom
      have hsize : ((holding q k).len + d.length + 1) % 2 ^ 32 = q.length + d.length + 1 :=
        Nat.mod_eq_of_lt (show q.length + d.length + 1 < 2 ^ 32 by omega)
      have hlen : ((holding q k').len + d.length) % 2 ^ 32 = (q ++ d).length := by
        rw [hlength]
        exact Nat.mod_eq_of_lt (show q.length + d.length < 2 ^ 32 by omega)
      dsimp only
      rw [if_neg hempty, hsize, hreserve, Option.bind_eq_bind, Option.bind_some]
      dsimp only
      rw [if_pos rfl]
      show (((holding q k').store q.length d).bind _).map _ = _
      rw [store_data_holding (by omega), Option.bind_some]
      dsimp only
      rw [hlen]
      show (((holding (q ++ d) k').store (q ++ d).length [0]).bind _).map _ = _
      rw [store_nul_holding (by omega)]
      rfl

/-! ## Reading -/

/-- **The first byte is removed**, and what is behind a NUL with it. -/
theorem remove_holding (h : (c :: r).length ≤ k) :
    (holding (c :: r) k).remove 0 1 = some (holding (WString.cleared r) k) := by
  obtain ⟨m, hm⟩ : ∃ m, k + 1 - (c :: r).length = m := ⟨_, rfl⟩
  rw [List.length_cons] at h hm
  have hcount : (if 1 > [c].length + r.length then [c].length + r.length else 1) = [c].length :=
    if_neg (by rw [List.length_singleton]; omega)
  have hpart := remove_part (D := []) (R := List.replicate m 0) (k := k) (List.cons_ne_nil c [])
    hcount
  have hrest : ([c] ++ r).drop (r.length + 1) = [] := List.drop_length
  have hcleared : k + 1 - (WString.cleared r).length = m + 1 := by
    rw [WString.length_cleared]
    omega
  rw [hrest] at hpart
  unfold holding
  rw [hcleared, List.length_cons, hm, WString.length_cleared]
  rw [List.length_nil, List.length_singleton, Nat.zero_add, Nat.zero_add,
    Nat.add_comm 1] at hpart
  exact hpart

/-- What `read` leaves: the bytes that stay, as `strncpy` has them. -/
theorem step_read (h : (c :: r).length ≤ k) :
    stream.step (holding (c :: r) k) .read =
      some ((c.toNat : ℤ), holding (WString.cleared r) k) := by
  have hcharAt : (holding (c :: r) k).charAt 0 = some c := rfl
  show StreamString.read (holding (c :: r) k) = _
  unfold StreamString.read
  rw [if_pos (show (holding (c :: r) k).len ≠ 0 from Nat.succ_ne_zero _), hcharAt,
    Option.bind_eq_bind, Option.bind_some, remove_holding h]
  rfl

/-- The bytes of a string are known from it. -/
theorem holding_injective {k' : ℕ} (h : holding q k = holding r k') : q = r := by
  have hlen : q.length = r.length := congrArg StringObject.len h
  have hload := load_holding q k
  rw [h, hlen, load_holding] at hload
  exact (Option.some.inj hload).symm

/-- **A read keeps the queue** exactly if no other byte stands behind a NUL in what stays. -/
theorem follows_read_iff (hs : Represents s q) :
    Follows q s .read ↔ WString.NulsLast q.tail := by
  obtain ⟨hlen, k, rfl, hk⟩ := hs
  cases q with
  | nil =>
    refine iff_of_true ⟨-1, [], holding [] k, rfl, rfl, hlen, k, rfl, hk⟩ fun c hc => ?_
    exact absurd hc List.not_mem_nil
  | cons c r =>
    rw [List.tail_cons, ← WString.cleared_eq_iff]
    rw [List.length_cons] at hlen
    constructor
    · rintro ⟨o, q', s', hfifo, hstream, -, k', hs', -⟩
      rw [step_read hk] at hstream
      obtain rfl : r = q' := congrArg Prod.snd (Option.some.inj hfifo)
      have hholding : holding (WString.cleared r) k = holding r k' :=
        (congrArg Prod.snd (Option.some.inj hstream)).trans hs'
      exact holding_injective hholding
    · intro hkept
      refine ⟨c.toNat, r, holding r k, rfl, ?_, by omega, k, rfl, ?_⟩
      · rw [step_read hk, hkept]
      · rw [List.length_cons] at hk
        omega

/-! ## Every run -/

/-- **A call that finds what it must** is answered as the queue does. -/
theorem follows (hs : Represents s q) (e : Call) (h : Keeps q e) : Follows q s e := by
  cases e with
  | write c => exact follows_write hs c h
  | writeFrom data => exact follows_writeFrom hs data h
  | read => exact (follows_read_iff hs).mpr h
  | peek =>
    obtain ⟨hlen, k, rfl, hk⟩ := hs
    cases q with
    | nil => exact ⟨-1, [], _, rfl, rfl, hlen, k, rfl, hk⟩
    | cons c r => exact ⟨c.toNat, c :: r, _, rfl, rfl, hlen, k, rfl, hk⟩
  | available =>
    obtain ⟨hlen, k, rfl, hk⟩ := hs
    refine ⟨q.length, q, holding q k, rfl, ?_, hlen, k, rfl, hk⟩
    show some (int32 (q.length : ℕ), holding q k) = _
    rw [int32_of_lt (by omega) (by omega)]

theorem represents_empty : ∃ s, empty = some s ∧ Represents s [] :=
  ⟨holding [] 15, by decide, by decide, 15, rfl, Nat.zero_le _⟩

/-- **The stream is a queue** in every run whose reads find no other byte behind a NUL in what
stays: all calls return, with the answers of the queue, and its bytes are in the string. -/
theorem serves_of_run {calls : List Call} (hkeeps : fifo.Along Keeps [] calls) :
    ∃ s answers s' q, empty = some s ∧ stream.run s calls = some (answers, s') ∧
      fifo.run [] calls = some (answers, q) ∧ s'.load 0 s'.len = some q := by
  obtain ⟨s, hempty, hs⟩ := represents_empty
  obtain ⟨answers, q, s', hfifo, hstream, -, k, rfl, -⟩ :=
    Transducer.run_refines (C := fifo) (A := stream) (R := fun q s => Represents s q)
      (P := Keeps)
      (fun q s e hs he => follows hs e he) hs hkeeps
  exact ⟨s, answers, _, q, hempty, hstream, hfifo, load_holding q k⟩

/-- Bytes are written and read, with NULs behind the others. -/
def nulsLastRun : List Call :=
  [.write 0x61, .writeFrom (some [0x62, 0, 0]), .read, .available, .read,
    .peek, .read, .write 5, .writeFrom none]

theorem serves_of_nulsLastRun : ∃ s answers s' q, empty = some s ∧
    stream.run s nulsLastRun = some (answers, s') ∧
      fifo.run [] nulsLastRun = some (answers, q) ∧
      s'.load 0 s'.len = some q :=
  serves_of_run (by decide)

/-- **A byte behind a NUL is lost** when the byte in front of both is read. -/
theorem not_serves_of_every_run :
    ¬ ∀ calls : List Call, ∃ s answers s' q, empty = some s ∧
      stream.run s calls = some (answers, s') ∧ fifo.run [] calls = some (answers, q) := by
  intro h
  obtain ⟨s, answers, s', q, hs, hstream, hfifo⟩ :=
    h [.write 0x61, .write 0, .write 0x62, .read, .read, .read]
  obtain rfl : holding [] 15 = s := Option.some.inj ((by decide : some _ = empty).trans hs)
  have hdiffer : (stream.run (holding [] 15)
      [.write 0x61, .write 0, .write 0x62, .read, .read, .read]).map Prod.fst ≠
        (fifo.run [] [.write 0x61, .write 0, .write 0x62, .read, .read, .read]).map
        Prod.fst := by
    decide
  exact hdiffer (by rw [hstream, hfifo]; rfl)

end StreamString
