import Esp31b.WebServer

/-!
# Arguments of a request

`_parseArguments` takes a query string apart with two searches from a moving
position, for the next `=` and the next `&`, and decodes the values. For a
text without NUL it finds what it should (`parseArguments_eq`): the pieces
between the ampersands that have an `=`, in order, each with the value behind
its first `=` decoded. What is decoded may have a NUL, and is then moved to a
string that keeps it or does not (`WString.moved`).
-/

/-- The argument in a place of the array. -/
def RequestArgument.moved (a : RequestArgument) : RequestArgument :=
  ⟨a.key.moved, a.value.moved⟩

namespace ESP31BWebServer

/-- `urlDecode`. An escape needs two characters behind the `%`; they are read
by `strtol` behind a `0x`, whatever they are. -/
def urlDecode : WString → WString
  | [] => []
  | c :: a :: b :: text =>
    if c = 0x25 then UInt8.ofInt (strtol [0x30, 0x78, a, b] 16) :: urlDecode text
    else (if c = 0x2B then 0x20 else c) :: urlDecode (a :: b :: text)
  | c :: text => (if c = 0x2B then 0x20 else c) :: urlDecode text

/-- The ampersands from a position on. Each turn passes one, so there are at
most as many turns as bytes. -/
def countFrom (data : WString) : ℕ → ℕ → ℕ
  | 0, _ => 0
  | n + 1, i =>
    if i < data.length then
      let i := data.indexOf 0x26 i
      if i = -1 then 0 else 1 + countFrom data n (i.toNat + 1)
    else 0

/-- The loop that fills `_currentArgs`. -/
def argumentsFrom (data : WString) (currentArgCount : ℕ) :
    ℕ → ℕ → List RequestArgument → List RequestArgument
  | 0, _, args => args
  | n + 1, pos, args =>
    if args.length < currentArgCount then
      let equalSignIndex := data.indexOf 0x3D pos
      let nextArgIndex := data.indexOf 0x26 pos
      if equalSignIndex = -1 ∨ equalSignIndex > nextArgIndex ∧ nextArgIndex ≠ -1 then
        if nextArgIndex = -1 then args
        else argumentsFrom data currentArgCount n (nextArgIndex.toNat + 1) args
      else
        let args := args ++ [⟨(data.substring pos (WString.pos equalSignIndex)).moved,
          (urlDecode (data.substring (WString.pos (equalSignIndex + 1))
            (WString.pos nextArgIndex))).moved⟩]
        if nextArgIndex = -1 then args
        else argumentsFrom data currentArgCount n (nextArgIndex.toNat + 1) args
    else args

/-- `_parseArguments`. -/
def parseArguments (data : WString) : List RequestArgument :=
  if data.length = 0 then []
  else argumentsFrom data (1 + countFrom data (data.length + 1) 0) (data.length + 1) 0 []

/-! ## What the arguments are -/

/-- The argument a piece stands for. -/
def argumentOf (piece : WString) : Option RequestArgument :=
  if 0x3D ∈ piece then
    some ⟨piece.takeWhile (· ≠ 0x3D), urlDecode ((piece.dropWhile (· ≠ 0x3D)).drop 1)⟩
  else none

/-- **The arguments of a query string**: of the pieces between ampersands,
those with an `=`. -/
def arguments (data : WString) : List RequestArgument :=
  (data.splitOn 0x26).filterMap argumentOf

theorem arguments_append (s t : WString) :
    arguments (s ++ 0x26 :: t) = arguments s ++ arguments t := by
  rw [arguments, List.splitOn_append_cons_self, List.filterMap_append]
  rfl

/-- A piece at the start, up to the first ampersand. -/
theorem arguments_cons {p : WString} (hp : 0x26 ∉ p) (t : WString) :
    arguments (p ++ 0x26 :: t) = (argumentOf p).toList ++ arguments t := by
  rw [arguments_append, arguments, List.splitOn_eq_singleton hp]
  cases h : argumentOf p <;> simp [h]

theorem arguments_piece {p : WString} (hp : 0x26 ∉ p) :
    arguments p = (argumentOf p).toList := by
  rw [arguments, List.splitOn_eq_singleton hp]
  cases h : argumentOf p <;> simp [h]

theorem argumentOf_split {k : WString} (hk : 0x3D ∉ k) (v : WString) :
    argumentOf (k ++ 0x3D :: v) = some ⟨k, urlDecode v⟩ := by
  have hne : ∀ c ∈ k, decide (c ≠ 0x3D) = true := fun c hc => by
    simp only [decide_eq_true_eq]
    exact fun h => hk (h ▸ hc)
  rw [argumentOf, if_pos (by simp), List.takeWhile_append_of_pos hne,
    List.dropWhile_append_of_pos hne]
  simp

/-! ## The two searches -/

section Searches

variable {data p t : WString} {ch : UInt8} {i : ℕ}

/-- A search in a text without NUL. -/
theorem indexOf_drop (h0 : 0 ∉ data) (hch : ch ≠ 0) (hd : data.drop i = p ++ ch :: t)
    (hp : ch ∉ p) :
    data.indexOf ch i = i + p.length := by
  refine WString.indexOf_of_drop hd (fun c hc => ⟨fun h => hp (h ▸ hc), fun h => ?_⟩) hch
  refine h0 (List.mem_of_mem_drop (i := i) ?_)
  rw [hd, ← h]
  exact List.mem_append_left _ hc

/-- What follows a piece. -/
theorem drop_after_piece (hd : data.drop i = p ++ ch :: t) :
    data.drop (i + p.length + 1) = t := by
  rw [Nat.add_assoc, ← List.drop_drop, hd, List.drop_append]
  simp

/-- A text between two positions. -/
theorem substring_piece {q : WString} {j : ℕ} (h0 : 0 ∉ data) (hj : i + p.length = j)
    (hd : data.drop i = p ++ q) : data.substring i j = p := by
  have h0' : 0 ∉ p :=
    fun h => h0 (List.mem_of_mem_drop (i := i) (hd ▸ List.mem_append_left _ h))
  rw [WString.substring_of_le (by omega), ← hj, List.drop_take, hd, Nat.add_sub_cancel_left,
    List.take_left, cstr_of_not_mem h0']

/-- **The ampersands are counted.** -/
theorem countFrom_eq {n : ℕ} (h0 : 0 ∉ data) (hn : (data.drop i).count 0x26 < n) :
    countFrom data n i = (data.drop i).count 0x26 := by
  induction n generalizing i with
  | zero => omega
  | succ n ih =>
    unfold countFrom
    by_cases hmem : 0x26 ∈ data.drop i
    · obtain ⟨p, t, hd, hp⟩ := List.eq_append_cons_of_mem hmem
      have hcount : (data.drop i).count 0x26 = 1 + t.count 0x26 := by
        rw [hd, List.count_append, List.count_eq_zero_of_not_mem hp, List.count_cons_self]
        omega
      have hlt : i < data.length := by
        by_contra hge
        rw [List.drop_eq_nil_of_le (by omega)] at hmem
        simp at hmem
      dsimp only
      rw [if_pos hlt, indexOf_drop h0 (by decide) hd hp, if_neg (by omega), hcount,
        show ((i : ℤ) + p.length).toNat + 1 = i + p.length + 1 by omega,
        ih (by rw [drop_after_piece hd]; omega), drop_after_piece hd]
    · dsimp only
      rw [WString.indexOf_none hmem, List.count_eq_zero_of_not_mem hmem]
      split <;> rfl

/-- A piece with an `=` becomes an argument; `j` is where the piece ends. -/
theorem argument_piece {j : ℕ} {q : WString} (h0 : 0 ∉ data) (hlen : data.length < 2 ^ 31)
    (hd : data.drop i = p ++ q) (hq : q = [] ∧ data.length ≤ j ∨ i + p.length = j)
    (hmem : 0x3D ∈ p) :
    ∃ e : ℕ, data.indexOf 0x3D i = e ∧ e < i + p.length ∧
      argumentOf p = some ⟨data.substring i (WString.pos e),
        urlDecode (data.substring (WString.pos ((e : ℤ) + 1)) j)⟩ := by
  obtain ⟨k, v, rfl, hk⟩ := List.eq_append_cons_of_mem hmem
  have hd' : data.drop i = k ++ 0x3D :: (v ++ q) := by rw [hd]; simp
  have hle : i + (k.length + 1 + v.length) ≤ data.length := by
    have h := congrArg List.length hd
    simp only [List.length_drop, List.length_append, List.length_cons] at h
    omega
  have hvalue : data.drop (i + k.length + 1) = v ++ q := drop_after_piece hd'
  refine ⟨i + k.length, ?_, by rw [List.length_append, List.length_cons]; omega, ?_⟩
  · rw [indexOf_drop h0 (by decide) hd' hk]
    push_cast
    rfl
  · rw [argumentOf_split hk, WString.pos_natCast (by omega),
      show (((i + k.length : ℕ) : ℤ) + 1) = ((i + k.length + 1 : ℕ) : ℤ) by omega,
      WString.pos_natCast (by omega), substring_piece h0 rfl hd']
    rcases hq with ⟨rfl, hj⟩ | hj
    · have h0v : 0 ∉ v := fun h => h0 (List.mem_of_mem_drop (i := i) (hd ▸ by simp [h]))
      rw [WString.substring_of_le (by omega), List.take_of_length_le hj,
        hvalue, List.append_nil, cstr_of_not_mem h0v]
    · rw [substring_piece h0 (by rw [← hj, List.length_append, List.length_cons]; omega) hvalue]

/-- A piece without one is passed over. -/
theorem indexOf_behind (h0 : 0 ∉ data) (hd : data.drop i = p ++ 0x26 :: t) (hp : 0x3D ∉ p) :
    data.indexOf 0x3D i = -1 ∨ data.indexOf 0x3D i > i + p.length := by
  by_cases hmem : 0x3D ∈ t
  · obtain ⟨a, b, rfl, ha⟩ := List.eq_append_cons_of_mem hmem
    right
    rw [indexOf_drop (p := p ++ 0x26 :: a) (t := b) h0 (by decide) (by rw [hd]; simp)
      (by simp [hp, ha])]
    rw [List.length_append, List.length_cons]
    omega
  · exact Or.inl (WString.indexOf_none (by rw [hd]; simp [hp, hmem]))

/-- **The loop fills in the arguments from a position on.** -/
theorem argumentsFrom_eq {count n : ℕ} {args : List RequestArgument} (h0 : 0 ∉ data)
    (hlen : data.length < 2 ^ 31) (hn : (data.drop i).count 0x26 < n)
    (hcount : args.length + (data.drop i).count 0x26 < count) :
    argumentsFrom data count n i args =
      args ++ (arguments (data.drop i)).map RequestArgument.moved := by
  induction n generalizing i args with
  | zero => omega
  | succ n ih =>
    unfold argumentsFrom
    rw [if_pos (by omega)]
    dsimp only
    by_cases hamp : 0x26 ∈ data.drop i
    · obtain ⟨p, t, hd, hp⟩ := List.eq_append_cons_of_mem hamp
      have hsize : (data.drop i).count 0x26 = 1 + t.count 0x26 := by
        rw [hd, List.count_append, List.count_eq_zero_of_not_mem hp, List.count_cons_self]
        omega
      have hnext : ((i : ℤ) + p.length).toNat + 1 = i + p.length + 1 := by omega
      have hle : i + p.length < data.length := by
        have h := congrArg List.length hd
        simp only [List.length_drop, List.length_append, List.length_cons] at h
        omega
      have htail := drop_after_piece hd
      rw [indexOf_drop h0 (by decide) hd hp, hnext]
      by_cases hmem : 0x3D ∈ p
      · obtain ⟨e, he, hlt, harg⟩ := argument_piece h0 hlen hd (Or.inr rfl) hmem
        have hpos : WString.pos ((i : ℤ) + p.length) = i + p.length := by
          rw [← Int.natCast_add, WString.pos_natCast (by omega)]
        rw [he, if_neg (by omega), if_neg (by omega), hpos,
          ih (by rw [htail]; omega)
            (by rw [htail, List.length_append, List.length_singleton]; omega), htail, hd,
          arguments_cons hp, harg]
        simp [RequestArgument.moved]
      · rw [if_pos (by have := indexOf_behind h0 hd hmem; omega), if_neg (by omega),
          ih (by rw [htail]; omega) (by rw [htail]; omega), htail, hd, arguments_cons hp]
        simp [argumentOf, hmem]
    · rw [WString.indexOf_none hamp]
      by_cases hmem : 0x3D ∈ data.drop i
      · obtain ⟨e, he, hlt, harg⟩ := argument_piece (q := []) h0 hlen (List.append_nil _).symm
          (Or.inl ⟨rfl, WString.length_le_pos_neg_one (by omega)⟩) hmem
        rw [he, if_neg (by omega), if_pos rfl, arguments_piece hamp, harg]
        simp [RequestArgument.moved]
      · rw [WString.indexOf_none hmem, if_pos (Or.inl rfl), if_pos rfl, arguments_piece hamp]
        simp [argumentOf, hmem]

end Searches

/-- **`_parseArguments` finds the arguments.** -/
theorem parseArguments_eq {data : WString} (h0 : 0 ∉ data) (hlen : data.length < 2 ^ 31) :
    parseArguments data = (arguments data).map RequestArgument.moved := by
  have hcount : data.count 0x26 < data.length + 1 := Nat.lt_succ_of_le List.count_le_length
  unfold parseArguments
  split
  · rename_i hnil
    rw [List.length_eq_zero_iff.mp hnil]
    rfl
  · rw [countFrom_eq h0 (by simpa using hcount),
      argumentsFrom_eq h0 hlen (by simpa using hcount)
      (by rw [List.length_nil]; omega)]
    rfl

/-- **One argument without NUL** is the only one that becomes it. -/
theorem map_moved_eq_singleton {as : List RequestArgument} {k v : WString} (hk : 0 ∉ k)
    (hv : 0 ∉ v) : as.map RequestArgument.moved = [⟨k, v⟩] ↔ as = [⟨k, v⟩] := by
  match as with
  | [] => simp
  | [a] =>
    obtain ⟨key, value⟩ := a
    simp only [List.map_cons, List.map_nil, RequestArgument.moved, List.cons.injEq, and_true,
      RequestArgument.mk.injEq]
    rw [WString.moved_eq_plain hk, WString.moved_eq_plain hv]
  | _ :: _ :: _ => simp

/-! ## Pieces -/

/-- Induction over the pieces of a text. -/
theorem piece_induction {P : WString → Prop} (hlast : ∀ p, 0x26 ∉ p → P p)
    (hcons : ∀ p t, 0x26 ∉ p → P t → P (p ++ 0x26 :: t)) (d : WString) : P d := by
  induction hn : d.length using Nat.strong_induction_on generalizing d with
  | _ n ih =>
    by_cases hamp : 0x26 ∈ d
    · obtain ⟨p, t, rfl, hp⟩ := List.eq_append_cons_of_mem hamp
      refine hcons p t hp (ih t.length ?_ t rfl)
      rw [← hn, List.length_append, List.length_cons]
      omega
    · exact hlast d hamp

theorem splitOn_piece {p : WString} (hp : 0x26 ∉ p) (t : WString) :
    (p ++ 0x26 :: t).splitOn 0x26 = p :: t.splitOn 0x26 := by
  rw [List.splitOn_append_cons_self, List.splitOn_eq_singleton hp, List.singleton_append]

/-- The pieces have nothing but what is in the text. -/
theorem mem_of_mem_piece {d p : WString} {c : UInt8} (hp : p ∈ d.splitOn 0x26) (hc : c ∈ p) :
    c ∈ d := by
  induction d using piece_induction with
  | hlast q hq =>
    rw [List.splitOn_eq_singleton hq, List.mem_singleton] at hp
    exact hp ▸ hc
  | hcons q t hq ih =>
    rw [splitOn_piece hq] at hp
    rcases List.mem_cons.mp hp with rfl | ht
    · exact List.mem_append_left _ hc
    · exact List.mem_append_right _ (List.mem_cons_of_mem _ (ih ht))

/-- The pieces of a text with an `=`. -/
def valued (d : WString) : List WString := (d.splitOn 0x26).filter (0x3D ∈ ·)

theorem arguments_valued (d : WString) : arguments d = (valued d).filterMap argumentOf := by
  rw [arguments, valued, List.filterMap_filter]
  congr 1
  funext p
  by_cases h : 0x3D ∈ p <;> simp [argumentOf, h]

theorem valued_eq_nil_iff (d : WString) : valued d = [] ↔ 0x3D ∉ d := by
  induction d using piece_induction with
  | hlast p hp => simp [valued, List.splitOn_eq_singleton hp]
  | hcons p t hp ih =>
    have hsplit : valued (p ++ 0x26 :: t) = [p].filter (0x3D ∈ ·) ++ valued t := by
      rw [valued, splitOn_piece hp, ← List.singleton_append, List.filter_append]
      rfl
    rw [hsplit, List.append_eq_nil_iff, ih]
    simp

/-- **A text that goes on**: its last piece may grow and more may follow. -/
theorem splitOn_append (x y : WString) :
    ∃ init last last' more, x.splitOn 0x26 = init ++ [last] ∧
    (x ++ y).splitOn 0x26 = init ++ last' :: more ∧ last <+: last' := by
  induction x using piece_induction with
  | hlast p hp =>
    refine ⟨[], p, ?_⟩
    rw [List.splitOn_eq_singleton hp]
    by_cases hamp : 0x26 ∈ y
    · obtain ⟨a, t, rfl, ha⟩ := List.eq_append_cons_of_mem hamp
      refine ⟨p ++ a, t.splitOn 0x26, rfl, ?_, List.prefix_append p a⟩
      rw [← List.append_assoc, splitOn_piece (by simp [hp, ha])]
      rfl
    · refine ⟨p ++ y, [], rfl, ?_, List.prefix_append p y⟩
      rw [List.splitOn_eq_singleton (by simp [hp, hamp])]
      rfl
  | hcons p t hp ih =>
    obtain ⟨init, last, last', more, hx, hxy, hlast⟩ := ih
    refine ⟨p :: init, last, last', more, ?_, ?_, hlast⟩
    · rw [splitOn_piece hp, hx]
      rfl
    · rw [List.append_assoc, List.cons_append, splitOn_piece hp, hxy]
      rfl

/-- Only the empty text decodes to nothing. -/
theorem urlDecode_eq_nil_iff (v : WString) : urlDecode v = [] ↔ v = [] := by
  constructor
  · intro h
    match v with
    | [] => rfl
    | c :: a :: b :: text =>
      unfold urlDecode at h
      split at h <;> cases h
    | [c] => cases h
    | [c, a] => cases h
  · rintro rfl
    rfl

/-- Which piece stands for an empty argument. -/
theorem piece_of_argumentOf {p k : WString} (h : argumentOf p = some ⟨k, []⟩) :
    p = k ++ [0x3D] := by
  by_cases hmem : 0x3D ∈ p
  · obtain ⟨a, v, rfl, ha⟩ := List.eq_append_cons_of_mem hmem
    rw [argumentOf_split ha, Option.some.injEq, RequestArgument.mk.injEq,
      urlDecode_eq_nil_iff] at h
    obtain ⟨rfl, rfl⟩ := h
    rfl
  · rw [argumentOf, if_neg hmem] at h
    cases h

/-- One argument comes from one piece. -/
theorem valued_of_arguments {d : WString} {a : RequestArgument} (h : arguments d = [a]) :
    ∃ p, valued d = [p] ∧ argumentOf p = some a := by
  have hsome : ∀ p ∈ valued d, ∃ x, argumentOf p = some x := fun p hp => by
    have hmem : 0x3D ∈ p := by simpa using (List.mem_filter.mp hp).2
    exact ⟨_, if_pos hmem⟩
  rw [arguments_valued] at h
  generalize valued d = ps at h hsome
  match ps with
  | [] => cases h
  | [p] =>
    obtain ⟨x, hx⟩ := hsome p (by simp)
    rw [List.filterMap_cons_some hx] at h
    obtain ⟨rfl, -⟩ := List.cons.inj h
    exact ⟨p, rfl, hx⟩
  | p :: p' :: ps =>
    obtain ⟨x, hx⟩ := hsome p (by simp)
    obtain ⟨x', hx'⟩ := hsome p' (by simp)
    rw [List.filterMap_cons_some hx, List.filterMap_cons_some hx'] at h
    cases (List.cons.inj h).2

end ESP31BWebServer
