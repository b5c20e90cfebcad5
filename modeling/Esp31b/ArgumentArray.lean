import Esp31b.Arguments
import Esp31b.Block

/-!
# The array the arguments are put in

`_parseArguments` goes over the text twice. The first pass counts the pieces
between ampersands, and an array of that many arguments is allocated; the second
fills it from the start and drops the pieces without an `=`. The two passes know
nothing of each other, so it takes a proof that the second one ends inside the
array (`exists_parseArgumentsArray`).

What is decoded is moved into the array, and a text of less than 16 bytes arrives
there without what is behind a NUL: the arguments are right exactly if that is
nothing but NULs (`parseArgumentsArray_iff`).

Positions and counts are `int`. There are as many as `2 ^ 31` pieces, one more than
the count can be, only in a text of nothing but ampersands; the count is negative
then, and nothing is filled in, which is right.
-/

namespace ESP31BWebServer

/-- The first pass: a position, and what was counted. -/
def countPass (data : WString) : ℕ → ℤ → ℤ → Option ℤ
  | 0, _, _ => none
  | turns + 1, i, currentArgCount =>
    if i < int32 data.length then
      let i := data.indexOf 0x26 (WString.pos i)
      if i = -1 then some currentArgCount
      else countPass data turns (int32 (i + 1)) (int32 (currentArgCount + 1))
    else some currentArgCount

/-- The second pass: a position, the number of arguments and the array. -/
def fillPass (data : WString) (currentArgCount : ℤ) :
    ℕ → ℤ → ℤ → List RequestArgument → Option (List RequestArgument × ℤ)
  | 0, _, _, _ => none
  | turns + 1, pos, iarg, currentArgs =>
    if iarg < currentArgCount then
      let equalSignIndex := data.indexOf 0x3D (WString.pos pos)
      let nextArgIndex := data.indexOf 0x26 (WString.pos pos)
      if equalSignIndex = -1 ∨ equalSignIndex > nextArgIndex ∧ nextArgIndex ≠ -1 then
        if nextArgIndex = -1 then some (currentArgs, iarg)
        else fillPass data currentArgCount turns (int32 (nextArgIndex + 1)) iarg currentArgs
      else do
        let currentArgs ← Block.set currentArgs iarg.toNat
          ⟨(data.substring (WString.pos pos) (WString.pos equalSignIndex)).moved,
            (urlDecode (data.substring (WString.pos (equalSignIndex + 1))
              (WString.pos nextArgIndex))).moved⟩
        if nextArgIndex = -1 then return (currentArgs, iarg + 1)
        else
          fillPass data currentArgCount turns (int32 (nextArgIndex + 1)) (iarg + 1) currentArgs
    else some (currentArgs, iarg)

/-- `_parseArguments`: `_currentArgs` and `_currentArgCount`. An access outside the
array has no result. -/
def parseArgumentsArray (data : WString) : Option (List RequestArgument × ℤ) :=
  if data.length = 0 then some ([], 0)
  else do
    let currentArgCount ← countPass data (data.length + 1) 0 1
    fillPass data currentArgCount (data.length + 1) 0 0
      (List.replicate currentArgCount.toNat ⟨[], []⟩)

variable {data : WString} {i n : ℕ} {args : List RequestArgument}

/-- **What a turn finds**: the position behind the next ampersand, and one less
of them. -/
theorem exists_next (h0 : 0 ∉ data) (hamp : 0x26 ∈ data.drop i) :
    ∃ j, i ≤ j ∧ j < data.length ∧ data.indexOf 0x26 i = j ∧
      (data.drop i).count 0x26 = 1 + (data.drop (j + 1)).count 0x26 := by
  obtain ⟨p, t, hd, hp⟩ := List.eq_append_cons_of_mem hamp
  have hlength := congrArg List.length hd
  rw [List.length_drop, List.length_append, List.length_cons] at hlength
  refine ⟨i + p.length, Nat.le_add_right _ _, by omega, ?_, ?_⟩
  · rw [indexOf_drop h0 (by decide) hd hp]
    push_cast
    rfl
  · rw [drop_after_piece hd, hd, List.count_append, List.count_eq_zero_of_not_mem hp,
      List.count_cons_self]
    omega

/-- **The first pass counts the ampersands.** -/
theorem countPass_eq (count : ℤ) (h0 : 0 ∉ data) (hlen : data.length < 2 ^ 31)
    (hn : (data.drop i).count 0x26 < n) (hi : i ≤ data.length) :
    countPass data n i (int32 count) = some (int32 (count + (data.drop i).count 0x26)) := by
  induction n generalizing i count with
  | zero => omega
  | succ n ih =>
    unfold countPass
    rw [int32_of_lt (by omega) (by omega : (data.length : ℤ) < 2 ^ 31),
      WString.pos_natCast (by omega)]
    dsimp only
    by_cases hamp : 0x26 ∈ data.drop i
    · obtain ⟨j, hij, hj, hfound, hcount⟩ := exists_next h0 hamp
      have hend : int32 ((j : ℤ) + 1) = (j + 1 : ℕ) := int32_of_lt (by omega) (by omega)
      rw [if_pos (by omega), hfound, if_neg (by omega), hend, int32_int32_add,
        ih (i := j + 1) _ (by omega) hj, hcount, Int.add_assoc]
      push_cast
      rfl
    · rw [WString.indexOf_none hamp, if_pos rfl, List.count_eq_zero_of_not_mem hamp,
        Int.natCast_zero, Int.add_zero, ite_self]

/-- **The array**, with the arguments at its start and the rest as it was
allocated, and their number. -/
def filled (count : ℕ) (args : List RequestArgument) : List RequestArgument × ℤ :=
  (args ++ List.replicate (count - args.length) ⟨[], []⟩, args.length)

/-- One more argument is put behind the others. -/
theorem set_filled {count : ℕ} (h : args.length < count) (a : RequestArgument) :
    Block.set (filled count args).1 args.length a = some (filled count (args ++ [a])).1 := by
  obtain ⟨k, hk⟩ : ∃ k, count - args.length = k + 1 := ⟨count - args.length - 1, by omega⟩
  have hrest : count - (args ++ [a]).length = k := by
    rw [List.length_append, List.length_singleton]
    omega
  unfold filled
  rw [hk, hrest, List.replicate_succ, Block.set_append, List.append_assoc]
  rfl

theorem filled_concat (count : ℕ) (a : RequestArgument) :
    (filled count (args ++ [a])).2 = (filled count args).2 + 1 := by
  unfold filled
  rw [List.length_append]
  rfl

/-- **The second pass stays inside the array**, and finds what is found without
one. -/
theorem fillPass_eq {count : ℕ} (h0 : 0 ∉ data) (hlen : data.length < 2 ^ 31)
    (hn : (data.drop i).count 0x26 < n) (hi : i ≤ data.length)
    (hcount : args.length + (data.drop i).count 0x26 < count) :
    fillPass data count n i (filled count args).2 (filled count args).1 =
      some (filled count (argumentsFrom data count n i args)) := by
  induction n generalizing i args with
  | zero => omega
  | succ n ih =>
    have hroom : args.length < count := by omega
    have hless : (filled count args).2 < count := by
      unfold filled
      dsimp only
      omega
    have hset := set_filled hroom
      ⟨(data.substring i (WString.pos (data.indexOf 0x3D i))).moved,
        (urlDecode (data.substring (WString.pos (data.indexOf 0x3D i + 1))
          (WString.pos (data.indexOf 0x26 i)))).moved⟩
    have hnumber : (filled count args).2.toNat = args.length := Int.toNat_natCast args.length
    unfold fillPass argumentsFrom
    rw [if_pos hless, if_pos hroom, WString.pos_natCast (by omega), hnumber]
    dsimp only
    by_cases hamp : 0x26 ∈ data.drop i
    · obtain ⟨j, hij, hj, hfound, hnext⟩ := exists_next h0 hamp
      have hend : int32 ((j : ℤ) + 1) = (j + 1 : ℕ) := int32_of_lt (by omega) (by omega)
      have hmore : ¬ (j : ℤ) = -1 := fun h => by cases h
      rw [hfound] at hset ⊢
      simp only [hmore, if_false, hend, Int.toNat_natCast]
      split
      · exact ih (by omega) hj (by omega)
      · rw [hset, Option.bind_eq_bind, Option.bind_some, ← filled_concat]
        exact ih (by omega) hj (by rw [List.length_append, List.length_singleton]; omega)
    · rw [WString.indexOf_none hamp] at hset ⊢
      simp only [if_true]
      split
      · rfl
      · rw [hset, Option.bind_eq_bind, Option.bind_some, ← filled_concat]
        rfl

/-- A text of nothing but ampersands has no arguments. -/
theorem arguments_of_all (h : ∀ c ∈ data, 0x26 = c) : arguments data = [] := by
  induction data with
  | nil => rfl
  | cons c t ih =>
    rw [← h c List.mem_cons_self, ← List.nil_append (0x26 :: t), arguments_append,
      ih fun c hc => h c (List.mem_cons_of_mem _ hc)]
    rfl

/-- **The array of arguments**: for a text without NUL both passes come to an end,
every access is inside the array, and its first elements are the arguments, moved there. -/
theorem exists_parseArgumentsArray (h0 : 0 ∉ data) (hlen : data.length < 2 ^ 31) :
    ∃ currentArgs, parseArgumentsArray data =
      some (currentArgs, ((arguments data).length : ℤ)) ∧
      currentArgs.take (arguments data).length =
        (arguments data).map RequestArgument.moved := by
  unfold parseArgumentsArray
  split
  · rename_i hempty
    rw [List.length_eq_zero_iff.mp hempty]
    exact ⟨[], rfl, rfl⟩
  · have hle : data.count 0x26 ≤ data.length := List.count_le_length
    have hn : (data.drop 0).count 0x26 < data.length + 1 := Nat.lt_succ_of_le hle
    have hcount : countPass data (data.length + 1) 0 1 =
        some (int32 (1 + data.count 0x26)) := by
      have hpass := countPass_eq (i := 0) 1 h0 hlen hn (Nat.zero_le _)
      rw [List.drop_zero] at hpass
      exact hpass
    rw [hcount, Option.bind_eq_bind, Option.bind_some]
    by_cases hall : data.count 0x26 = 2 ^ 31 - 1
    · -- the count has wrapped
      have hargs : arguments data = [] := arguments_of_all (List.count_eq_length.mp (by omega))
      have hwrap : int32 (1 + data.count 0x26) = -2 ^ 31 := by
        rw [hall]
        rfl
      rw [hwrap, hargs, fillPass, if_neg (by decide)]
      exact ⟨_, rfl, rfl⟩
    · have hfits : int32 (1 + data.count 0x26) = ((1 + data.count 0x26 : ℕ) : ℤ) :=
        (int32_of_lt (by omega) (by omega)).trans (by push_cast; rfl)
      have hroom : ([] : List RequestArgument).length + (data.drop 0).count 0x26 <
          1 + data.count 0x26 := by rw [List.drop_zero, List.length_nil]; omega
      have hfill := fillPass_eq h0 hlen hn (Nat.zero_le _) hroom
      rw [argumentsFrom_eq h0 hlen (by rw [List.drop_zero]; omega)
        (by rw [List.drop_zero, List.length_nil]; omega), List.drop_zero,
        List.nil_append] at hfill
      have hnumber : ((arguments data).map RequestArgument.moved).length =
          (arguments data).length := List.length_map _
      rw [hfits, Int.toNat_natCast, ← hnumber]
      exact ⟨_, hfill, List.take_left⟩

/-- What a piece with an `=` has behind the first one. -/
def valueText (piece : WString) : WString := (piece.dropWhile (· ≠ 0x3D)).drop 1

/-- **The arguments that arrive as they are.** -/
theorem map_moved_eq_iff (h0 : 0 ∉ data) :
    (arguments data).map RequestArgument.moved = arguments data ↔
      ∀ p ∈ data.splitOn 0x26, 0x3D ∈ p → (urlDecode (valueText p)).ArrivesWhole := by
  have hall : (arguments data).map RequestArgument.moved = arguments data ↔
      ∀ a ∈ arguments data, a.moved = a := by
    conv_lhs => rhs; rw [← List.map_id (arguments data)]
    exact List.map_inj_left
  rw [hall]
  have hone : ∀ p ∈ data.splitOn 0x26, 0x3D ∈ p →
      ∃ a, argumentOf p = some a ∧
        (a.moved = a ↔ (urlDecode (valueText p)).ArrivesWhole) := by
    intro p hp hvalue
    have hkey : 0 ∉ p.takeWhile (· ≠ 0x3D) := fun h =>
      h0 (mem_of_mem_piece hp ((List.takeWhile_prefix _).subset h))
    refine ⟨_, if_pos hvalue, ?_⟩
    rw [← WString.moved_eq_iff, RequestArgument.moved, RequestArgument.mk.injEq]
    exact and_iff_right (WString.moved_of_plain hkey)
  constructor
  · intro h p hp hvalue
    obtain ⟨a, ha, hiff⟩ := hone p hp hvalue
    exact hiff.mp (h a (List.mem_filterMap.mpr ⟨p, hp, ha⟩))
  · intro h a ha
    obtain ⟨p, hp, harg⟩ := List.mem_filterMap.mp ha
    have hvalue : 0x3D ∈ p := by
      by_contra hno
      rw [argumentOf, if_neg hno] at harg
      cases harg
    obtain ⟨a', ha', hiff⟩ := hone p hp hvalue
    obtain rfl := Option.some.inj (ha'.symm.trans harg)
    exact hiff.mpr (h p hp hvalue)

/-- **`_parseArguments` is right** exactly if each value decodes to 16 bytes at least,
or to a text with nothing but NULs behind its first NUL. -/
theorem parseArgumentsArray_iff (h0 : 0 ∉ data) (hlen : data.length < 2 ^ 31) :
    (∃ currentArgs, parseArgumentsArray data =
      some (currentArgs, ((arguments data).length : ℤ)) ∧
      currentArgs.take (arguments data).length = arguments data) ↔
      ∀ p ∈ data.splitOn 0x26, 0x3D ∈ p → (urlDecode (valueText p)).ArrivesWhole := by
  obtain ⟨filled, hparse, htake⟩ := exists_parseArgumentsArray h0 hlen
  rw [← map_moved_eq_iff h0]
  constructor
  · rintro ⟨currentArgs, hparse', htake'⟩
    obtain rfl := congrArg Prod.fst (Option.some.inj (hparse.symm.trans hparse'))
    exact htake.symm.trans htake'
  · exact fun h => ⟨filled, hparse, htake.trans h⟩

/-- Pieces without an `=` are dropped, and a value may have one, or a NUL at its end. -/
theorem parseArgumentsArray_pieces :
    ∃ currentArgs, parseArgumentsArray (ascii "&a=1&b&c=2=3%00&") =
        some (currentArgs, ((arguments (ascii "&a=1&b&c=2=3%00&")).length : ℤ)) ∧
      currentArgs.take (arguments (ascii "&a=1&b&c=2=3%00&")).length =
        arguments (ascii "&a=1&b&c=2=3%00&") :=
  (parseArgumentsArray_iff (by decide) (by decide)).mpr (by decide)

/-- **A value is cut at a NUL** that was decoded. -/
theorem not_parseArgumentsArray :
    ¬ ∀ data : WString, 0 ∉ data → data.length < 2 ^ 31 →
      ∃ currentArgs, parseArgumentsArray data =
        some (currentArgs, ((arguments data).length : ℤ)) ∧
        currentArgs.take (arguments data).length = arguments data := by
  intro h
  obtain ⟨currentArgs, hparse, htake⟩ := h (ascii "a=b%00c") (by decide) (by decide)
  have hrun : parseArgumentsArray (ascii "a=b%00c") = some ([⟨[0x61], [0x62, 0, 0]⟩], 1) := by
    decide
  obtain rfl := congrArg Prod.fst (Option.some.inj (hparse.symm.trans hrun))
  exact absurd htake (by decide)

end ESP31BWebServer
