import Esp31b.StringObject

/-!
# `String` without memory

`reserve` and `concat` are documented to leave the string unchanged when they
return 0. All of them go through `changeBuffer`, which puts what `malloc`
returned into `buffer` in either case: a string that had a buffer has lost it,
and keeps its length and its capacity.

A string without a buffer is unchanged then, and an assignment that fails makes
one (`StringObject.unchanged_iff`).
-/

namespace StringObject

/-- The calls that return whether there was memory. A null pointer is `none`. -/
inductive Call where
  | reserve (size : ℕ)
  | concat (rhs : StringObject)
  | concatText (cstr : Option (List UInt8))
  | concatChar (c : UInt8)
  | concatFlash (str : Option (List UInt8))

/-- What is returned, and what the string is then. -/
def Call.run (s : StringObject) (malloc : Bool) : Call → Option (Bool × StringObject)
  | .reserve size => s.reserve size malloc
  | .concat rhs => s.concat rhs malloc
  | .concatText cstr => s.concatText cstr malloc
  | .concatChar c => s.concatChar c malloc
  | .concatFlash str => s.concatFlash str malloc

/-- A string that is given is valid. -/
def Call.ValidArgument : Call → Prop
  | .concat rhs => rhs.Valid
  | _ => True

/-- The length of what is appended. -/
def Call.appended : Call → ℕ
  | .reserve _ => 0
  | .concat rhs => rhs.len
  | .concatText cstr => (cstr.getD []).length
  | .concatChar _ => 1
  | .concatFlash str => (str.getD []).length

/-- **The length that room is needed for**, unless nothing is appended. -/
def Call.needs (s : StringObject) : Call → Option ℕ
  | .reserve size => some size
  | call => if call.appended = 0 then none else some ((s.len + call.appended) % 2 ^ 32)

/-- **The buffer is to be replaced**, and there is no memory for another. -/
def Loses (s : StringObject) (malloc : Bool) (needed : ℕ) : Prop :=
  s.buffer.isSome = true ∧ s.capacity < needed ∧ malloc = false

/-- Where 0 is returned, the string is unchanged. -/
def Unchanged (s : StringObject) (r : Option (Bool × StringObject)) : Prop :=
  ∀ t, r = some (false, t) → t = s

variable {s rhs : StringObject} {malloc : Bool} {size length : ℕ}

/-- **`reserve` without memory.** -/
theorem reserve_false (s : StringObject) (size : ℕ) : s.reserve size false =
    if s.buffer.isSome ∧ s.capacity ≥ size then some (true, s)
    else some (false, { s with buffer := none }) := rfl

/-- With memory there is another buffer. -/
theorem changeBuffer_true {r : Bool} {t : StringObject}
    (h : s.changeBuffer size true = some (r, t)) : r = true := by
  unfold changeBuffer at h
  dsimp only at h
  rw [if_pos rfl] at h
  obtain ⟨old, -, h⟩ := Option.bind_eq_some_iff.mp h
  obtain ⟨newbuffer, -, h⟩ := Option.bind_eq_some_iff.mp h
  cases h
  rfl

theorem reserve_true {t : StringObject} : s.reserve size true ≠ some (false, t) := by
  intro h
  unfold reserve at h
  split at h
  · cases h
  · obtain ⟨⟨changed, u⟩, hchanged, h⟩ := Option.bind_eq_some_iff.mp h
    obtain rfl := changeBuffer_true hchanged
    dsimp only at h
    rw [if_pos rfl] at h
    split at h
    · obtain ⟨v, -, h⟩ := Option.bind_eq_some_iff.mp h
      cases h
    · cases h

/-- A string is its fields. -/
theorem eq_without_buffer : ({ s with buffer := none } : StringObject) = s ↔
    ¬ s.buffer.isSome = true := by
  rw [Bool.not_eq_true, Option.isSome_eq_false_iff, Option.isNone_iff_eq_none]
  exact ⟨fun h => (congrArg StringObject.buffer h).symm, fun h => by rw [← h]⟩

theorem unchanged_reserve : Unchanged s (s.reserve size malloc) ↔ ¬ s.Loses malloc size := by
  unfold Unchanged Loses
  cases malloc with
  | true =>
    exact ⟨fun _ h => absurd h.2.2.symm Bool.false_ne_true, fun _ t h => absurd h reserve_true⟩
  | false =>
    rw [reserve_false]
    split
    · rename_i hroom
      exact ⟨fun _ h => absurd h.2.1 (by omega), fun _ t h => by cases h⟩
    · rename_i hroom
      constructor
      · rintro h ⟨hsome, -, -⟩
        exact eq_without_buffer.mp (h _ rfl) hsome
      · intro h t ht
        cases ht
        exact eq_without_buffer.mpr fun hsome =>
          h ⟨hsome, Nat.lt_of_not_le fun hle => hroom ⟨hsome, hle⟩, rfl⟩

/-- **What is appended needs room**, and fails where `reserve` does. -/
theorem append_false {r : Option (Bool × StringObject)} {newlen : ℕ} {d : List UInt8}
    (t : StringObject)
    (hr : r = (do
      let (reserved, s) ← s.reserve newlen malloc
      if reserved then
        let s ← s.store s.len d
        return (true, { s with len := newlen })
      else return (false, s))) : r = some (false, t) ↔
        s.reserve newlen malloc = some (false, t) := by
  rw [hr]
  cases hreserve : s.reserve newlen malloc with
  | none => exact Iff.rfl
  | some u =>
    obtain ⟨reserved, u⟩ := u
    rw [Option.bind_eq_bind, Option.bind_some]
    dsimp only
    cases reserved with
    | false => exact Iff.rfl
    | true =>
      rw [if_pos rfl]
      constructor
      · intro h
        obtain ⟨v, -, h⟩ := Option.bind_eq_some_iff.mp h
        cases h
      · intro h
        cases h

/-- **When appending leaves the string unchanged**, where it is tried. -/
theorem unchanged_append {r : Option (Bool × StringObject)} {newlen : ℕ} {d : List UInt8}
    (hr : r = (do
      let (reserved, s) ← s.reserve newlen malloc
      if reserved then
        let s ← s.store s.len d
        return (true, { s with len := newlen })
      else return (false, s))) : Unchanged s r ↔ ¬ s.Loses malloc newlen := by
  rw [← unchanged_reserve]
  exact forall_congr' fun t => by rw [append_false t hr]

theorem unchanged_concatFrom (s : StringObject) (malloc : Bool)
    (cstr : List UInt8) (length : ℕ) :
    Unchanged s (s.concatFrom (some cstr) length malloc) ↔
      ¬ ∃ needed, (if length = 0 then none else some ((s.len + length) % 2 ^ 32)) =
        some needed ∧
        s.Loses malloc needed := by
  unfold concatFrom
  dsimp only
  by_cases hlength : length = 0
  · rw [if_pos hlength, if_pos hlength]
    exact iff_of_true (fun t h => by cases h) (fun h => by cases h.choose_spec.1)
  · rw [if_neg hlength, if_neg hlength, unchanged_append rfl]
    simp only [Option.some.injEq, exists_eq_left']

/-- A null pointer is not appended. -/
theorem unchanged_null : Unchanged s (some (false, s)) := fun _ h => by
  cases h
  rfl

/-- **When a call that returns 0 leaves the string unchanged.** -/
theorem unchanged_call (s : StringObject) (malloc : Bool) {call : Call}
    (hvalid : call.ValidArgument) :
    Unchanged s (call.run s malloc) ↔ ¬ ∃ needed, call.needs s = some needed ∧
    s.Loses malloc needed := by
  have hnull : ∀ {p : ℕ → Prop}, ¬ ∃ needed,
      (if 0 = 0 then none else some ((s.len + 0) % 2 ^ 32)) =
      some needed ∧ p needed :=
    fun h => by cases h.choose_spec.1
  cases call with
  | reserve size =>
    refine unchanged_reserve.trans (not_congr ?_)
    exact ⟨fun h => ⟨size, rfl, h⟩, fun ⟨n, hn, h⟩ => Option.some.inj hn ▸ h⟩
  | concat rhs =>
    cases hbuffer : rhs.buffer with
    | none =>
      obtain ⟨hlen, -⟩ := (valid_none hbuffer).mp hvalid
      have hrun : s.concat rhs malloc = some (false, s) := by
        unfold concat cptr
        rw [hbuffer]
        rfl
      show Unchanged s (s.concat rhs malloc) ↔
        ¬ ∃ needed, (if rhs.len = 0 then none else some ((s.len + rhs.len) % 2 ^ 32)) =
          some needed ∧ s.Loses malloc needed
      rw [hrun, hlen]
      exact iff_of_true unchanged_null hnull
    | some b =>
      obtain ⟨t, ht, -⟩ := hvalid.text hbuffer
      have hrun : s.concat rhs malloc = s.concatFrom (some t) rhs.len malloc := by
        unfold concat cptr
        rw [hbuffer]
        dsimp only
        rw [ht]
        rfl
      show Unchanged s (s.concat rhs malloc) ↔ _
      rw [hrun]
      exact unchanged_concatFrom s malloc t rhs.len
  | concatText cstr =>
    cases cstr with
    | none => exact iff_of_true unchanged_null hnull
    | some cstr => exact unchanged_concatFrom s malloc cstr cstr.length
  | concatChar c => exact unchanged_concatFrom s malloc (cstr [c]) 1
  | concatFlash str =>
    cases str with
    | none => exact iff_of_true unchanged_null hnull
    | some str => exact unchanged_concatFrom s malloc str str.length

/-! ## Assignments -/

/-- There is no memory for a buffer of this length, and one is needed. -/
def Fails (s : StringObject) (malloc : Bool) (length : ℕ) : Prop :=
  ¬ (s.buffer.isSome = true ∧ s.capacity ≥ length) ∧ malloc = false

theorem copy_of_fails (h : s.Fails malloc length) (cstr : List UInt8) :
    s.copy cstr length malloc = some init := by
  obtain ⟨hroom, rfl⟩ := h
  unfold copy
  rw [reserve_false, if_neg hroom]
  rfl

/-- **An assignment without memory** leaves the null string, which is valid. -/
theorem assign_of_fails (hrhs : rhs.Valid) (hsome : rhs.buffer.isSome = true)
    (h : s.Fails malloc rhs.len) :
    s.assign rhs malloc = some init := by
  obtain ⟨b, hbuffer⟩ := Option.isSome_iff_exists.mp hsome
  obtain ⟨t, ht, -⟩ := hrhs.text hbuffer
  have htext : rhs.text 0 = some t := by
    unfold StringObject.text
    rw [hbuffer]
    exact ht
  unfold assign
  rw [if_pos hsome, htext]
  exact copy_of_fails h t

/-- **What is left without memory**, in any state of the string: the calls that
return 0 leave it unchanged exactly if it has no buffer to lose, and an
assignment makes the null string. -/
theorem unchanged_iff (s : StringObject) (malloc : Bool) :
    (∀ call : Call, call.ValidArgument →
      (Unchanged s (call.run s malloc) ↔ ¬ ∃ needed, call.needs s = some needed ∧
        s.Loses malloc needed)) ∧
    (∀ rhs : StringObject, rhs.Valid → rhs.buffer.isSome = true → s.Fails malloc rhs.len →
      s.assign rhs malloc = some init) ∧
    (∀ cstr : List UInt8, s.Fails malloc cstr.length →
      s.assignText (some cstr) malloc = some init) ∧
    init.Valid :=
  ⟨fun _ hvalid => unchanged_call s malloc hvalid,
    fun _ hrhs hsome h => assign_of_fails hrhs hsome h,
    fun cstr h => copy_of_fails h cstr, valid_init⟩

/-- The string `ab` in a block of 16 bytes. -/
def ab : StringObject := ⟨some (ascii "ab" ++ List.replicate 14 0), 15, 2⟩

/-- It has room for one more byte, and is unchanged. -/
theorem unchanged_iff_ab : Unchanged ab (ab.concatChar 0x63 false) ↔
    ¬ ∃ needed, (Call.concatChar 0x63).needs ab = some needed ∧ ab.Loses false needed :=
  (unchanged_iff ab false).1 (.concatChar 0x63) trivial

/-- **A string that needs a larger buffer** loses the one it has, and keeps its
length. -/
theorem not_unchanged : ¬ ∀ (s : StringObject) (malloc : Bool) (call : Call), s.Valid →
    call.ValidArgument →
    Unchanged s (call.run s malloc) := by
  intro h
  have hlost := h ab false (.reserve 16) (by decide) trivial ⟨none, 15, 2⟩ (by decide)
  exact absurd hlost (by decide)

end StringObject
