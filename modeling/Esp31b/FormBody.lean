import Esp31b.FileBody
import Esp31b.ParseRequest

/-!
# The body of a form as bytes

What `_parseForm` makes of a body is a matter of its bytes alone once they come
in time. The relations below say what, from the inside out: `ValueBody` for the
lines of a field, `PartBody` for one part, and `FormBody` for all of them – with
the fields they hold, in order, and how it ends. A form ends with a closing
delimiter, or with a file that is cut off by the end of a closed connection. It
does not end where the bytes do: the loops over the parts and over the lines of
a value go on with empty lines.

The loop over the parts ends so if the fields fit into `postArgs`. With the
first one that does not, it writes behind it, whatever follows.
-/

namespace ESP31BWebServer

/-! ## Lines -/

/-- What `readLine` reads of some bytes, and what it leaves. -/
def cutLine (q : List UInt8) : WString × List UInt8 :=
  ((cutAt 0x0D q).1, (cutAt 0x0A (cutAt 0x0D q).2).2)

theorem cutLine_suffix (q : List UInt8) : (cutLine q).2 <:+ q :=
  List.IsSuffix.trans (cutAt_suffix _ _) (cutAt_suffix _ _)

theorem length_cutLine_lt {q : List UInt8} (h : q ≠ []) : (cutLine q).2.length < q.length :=
  Nat.lt_of_le_of_lt (cutAt_suffix _ _).length_le (length_cutAt_lt _ h)

variable {l : Link} {closed : Bool} {q : List UInt8}

theorem readLine_brings (h : l.Brings closed q) :
    ∃ l', readLine l = ((cutLine q).1, l') ∧ l'.Brings closed (cutLine q).2 := by
  obtain ⟨l₁, h₁, hl₁⟩ := h.readStringUntil_eq 0x0D
  obtain ⟨l₂, h₂, hl₂⟩ := hl₁.readStringUntil_eq 0x0A
  refine ⟨l₂, ?_, hl₂⟩
  rw [readLine, h₁]
  dsimp only
  rw [h₂]
  rfl

/-! ## Values -/

/-- A value with one more line. -/
def addLine (argValue line : WString) : WString :=
  (if argValue.length > 0 then argValue ++ [0x0A] else argValue) ++ line.cleared

/-- **The lines of a value**, up to the first that starts as a delimiter does:
the value, that line, and what is behind it. There is none where the bytes end
before it. -/
inductive ValueBody (b : WString) :
    WString → List UInt8 → WString → WString → List UInt8 → Prop where
  | close {v : WString} {q : List UInt8}
      (h : (cutLine q).1.startsWith (ascii "--" ++ b) = true) :
    ValueBody b v q v (cutLine q).1 (cutLine q).2
  | more {v v' line : WString} {q rest : List UInt8}
    (h : (cutLine q).1.startsWith (ascii "--" ++ b) = false)
    (hrest : ValueBody b (addLine v (cutLine q).1) (cutLine q).2 v' line rest) :
    ValueBody b v q v' line rest

theorem ValueBody.suffix {b v v' line : WString} {q rest : List UInt8}
    (h : ValueBody b v q v' line rest) : rest <:+ q := by
  induction h with
  | close => exact cutLine_suffix _
  | more _ _ ih => exact List.IsSuffix.trans ih (cutLine_suffix _)

section
variable {b v v' line : WString} {rest : List UInt8}

theorem valueTurn_brings (b v : WString) (hl : l.Brings closed q) :
    ∃ l', valueTurn b (v, l) = (if (cutLine q).1.startsWith (ascii "--" ++ b) then
        .inr (v, (cutLine q).1, l') else .inl (addLine v (cutLine q).1, l')) ∧
      l'.Brings closed (cutLine q).2 := by
  obtain ⟨l', hread, hl'⟩ := readLine_brings hl
  refine ⟨l', ?_, hl'⟩
  rw [valueTurn, hread]
  rfl

/-- **A value that is closed is read.** -/
theorem ValueBody.yields (h : ValueBody b v q v' line rest) (hl : l.Brings closed q) :
    ∃ l', (Fueled.loop (fun s => pure (valueTurn b s)) (v, l)).Yields (v', line, l') ∧
      l'.Brings closed rest := by
  induction h generalizing l with
  | @close v q h =>
    obtain ⟨l', hturn, hl'⟩ := valueTurn_brings b v hl
    refine ⟨l', Fueled.yields_loop_leave ?_, hl'⟩
    rw [hturn, if_pos h]
    exact Fueled.yields_pure _
  | @more v v' line q rest h hrest ih =>
    obtain ⟨l', hturn, hl'⟩ := valueTurn_brings b v hl
    obtain ⟨l'', hloop, hl''⟩ := ih hl'
    refine ⟨l'', Fueled.yields_loop_again ?_ hloop, hl''⟩
    rw [hturn, if_neg (by rw [h]; decide)]
    exact Fueled.yields_pure _

/-- **A value that is not closed is read for ever.** -/
theorem valueLoop_never (h : ∀ v' line rest, ¬ ValueBody b v q v' line rest)
    (hl : l.Brings closed q) :
    (Fueled.loop (fun s => pure (valueTurn b s)) (v, l)).Never := by
  refine Fueled.never_loop (fun s : WString × Link => ∃ q, s.2.Brings closed q ∧
    ∀ v' line rest, ¬ ValueBody b s.1 q v' line rest) (fun s => Fueled.steady_pure _) ?_
      ⟨q, hl, h⟩
  rintro ⟨v, l⟩ ⟨q, hl, h⟩
  obtain ⟨l', hturn, hl'⟩ := valueTurn_brings b v hl
  have hopen : (cutLine q).1.startsWith (ascii "--" ++ b) = false :=
    Bool.eq_false_iff.mpr (fun hclose => h _ _ _ (.close hclose))
  refine Or.inr ⟨(addLine v (cutLine q).1, l'), ?_, (cutLine q).2, hl',
    fun v' line rest hrest =>
    h _ _ _ (.more hopen hrest)⟩
  rw [hturn, if_neg (by rw [hopen]; decide)]
  exact Fueled.yields_pure _

end

/-! ## Parts -/

/-- What is behind the first `=` of a `Content-Disposition` line and the
quotation mark that follows it. -/
def partHeader (line : WString) : Option WString :=
  if !line.startsWith (ascii "Content-Disposition") || line.indexOf 0x3D 0 = -1 then none
  else some (line.substring (WString.pos (line.indexOf 0x3D 0 + 2)) line.length)

/-- A second `=` makes it a file. -/
def namesFile (argName : WString) : Bool := argName.indexOf 0x3D 0 ≠ -1

/-- The name of a field: all but the last quotation mark. -/
def fieldName (argName : WString) : WString :=
  argName.substring 0 (WString.pos (argName.length - 1))

/-- What follows the first line of a part: another line, and one more if that
is its type. -/
def partContents (q : List UInt8) : List UInt8 :=
  if (cutLine q).1.startsWith (ascii "Content-Type") then (cutLine (cutLine q).2).2
    else (cutLine q).2

theorem partContents_suffix (q : List UInt8) : partContents q <:+ q := by
  unfold partContents
  split
  · exact List.IsSuffix.trans (cutLine_suffix _) (cutLine_suffix _)
  · exact cutLine_suffix _

/-- How a form ends. -/
inductive FormEnd where
  | complete
  | aborted
  | endless
  deriving DecidableEq, Repr

/-- **One part**: the field it holds, if it does, and how the form goes on –
with these bytes, or not at all. -/
inductive PartBody (closed : Bool) (b : List UInt8) (stack : StackMemory) :
    List UInt8 → List RequestArgument → List UInt8 ⊕ FormEnd → Prop where
  /-- A line that begins no part. -/
  | skipped {q : List UInt8} (h : partHeader (cutLine q).1 = none) :
    PartBody closed b stack q [] (.inl (cutLine q).2)
  | field {q rest : List UInt8} {argName v line : WString}
      (h : partHeader (cutLine q).1 = some argName)
    (hname : namesFile argName = false)
    (hvalue : ValueBody b [] (partContents (cutLine q).2) v line rest) :
    PartBody closed b stack q [RequestArgument.copied ⟨fieldName argName, v⟩]
      (if line.equals (ascii "--" ++ b ++ ascii "--") then .inr .complete else .inl rest)
  /-- A field whose value the bytes do not close. -/
  | unclosed {q : List UInt8} {argName : WString} (h : partHeader (cutLine q).1 = some argName)
    (hname : namesFile argName = false)
    (hvalue : ∀ v line rest, ¬ ValueBody b [] (partContents (cutLine q).2) v line rest) :
    PartBody closed b stack q [] (.inr .endless)
  | file {q rest : List UInt8} {argName : WString} (h : partHeader (cutLine q).1 = some argName)
    (hname : namesFile argName = true)
    (hfile : FileBody closed b stack (partContents (cutLine q).2) (some rest)) :
    PartBody closed b stack q []
      (if (cutLine rest).1.equalsC (ascii "--") then .inr .complete else .inl (cutLine rest).2)
  /-- A file that the bytes do not close. -/
  | cut {q : List UInt8} {argName : WString} (h : partHeader (cutLine q).1 = some argName)
    (hname : namesFile argName = true)
    (hfile : FileBody closed b stack (partContents (cutLine q).2) none) :
    PartBody closed b stack q [] (.inr (if closed then .aborted else .endless))

/-- **A form**: its fields, in order, and how it ends. -/
inductive FormBody (closed : Bool) (b : List UInt8) (stack : StackMemory) :
    List UInt8 → List RequestArgument → FormEnd → Prop where
  | exhausted : FormBody closed b stack [] [] .endless
  | last {q : List UInt8} {fields : List RequestArgument} {e : FormEnd}
    (h : PartBody closed b stack q fields (.inr e)) : FormBody closed b stack q fields e
  | more {q rest : List UInt8} {fields fields' : List RequestArgument} {e : FormEnd}
      (hq : q ≠ [])
    (h : PartBody closed b stack q fields (.inl rest))
    (hrest : FormBody closed b stack rest fields' e) :
    FormBody closed b stack q (fields ++ fields') e

section
variable {b : List UInt8} {stack : StackMemory} {fields : List RequestArgument} {e : FormEnd}

theorem PartBody.exists (closed : Bool) (b : List UInt8) (stack : StackMemory)
    (q : List UInt8) :
    ∃ fields res, PartBody closed b stack q fields res := by
  cases h : partHeader (cutLine q).1 with
  | none => exact ⟨_, _, .skipped h⟩
  | some argName =>
    cases hname : namesFile argName with
    | false =>
      by_cases hvalue : ∃ v line rest, ValueBody b [] (partContents (cutLine q).2) v line rest
      · obtain ⟨v, line, rest, hvalue⟩ := hvalue
        exact ⟨_, _, .field h hname hvalue⟩
      · exact ⟨_, _, .unclosed h hname fun v line rest hv => hvalue ⟨v, line, rest, hv⟩⟩
    | true =>
      obtain ⟨res, hfile⟩ := FileBody.exists closed b stack (partContents (cutLine q).2)
      cases res with
      | none => exact ⟨_, _, .cut h hname hfile⟩
      | some rest => exact ⟨_, _, .file h hname hfile⟩

/-- What is left behind a part is behind its first line. -/
theorem PartBody.suffix {res : List UInt8 ⊕ FormEnd} (h : PartBody closed b stack q fields res)
    {rest : List UInt8} (hres : res = .inl rest) : rest <:+ (cutLine q).2 := by
  have hcontents := partContents_suffix (cutLine q).2
  cases h with
  | skipped h =>
    cases hres
    exact List.suffix_rfl
  | field h hname hvalue =>
    split at hres
    · cases hres
    · cases hres
      exact List.IsSuffix.trans hvalue.suffix hcontents
  | unclosed => cases hres
  | @file r argName h hname hfile =>
    split at hres
    · cases hres
    · cases hres
      exact List.IsSuffix.trans (cutLine_suffix r) (List.IsSuffix.trans hfile.suffix hcontents)
  | cut => cases hres

/-- A part takes something, if there is anything. -/
theorem PartBody.length_lt {res : List UInt8 ⊕ FormEnd}
    (h : PartBody closed b stack q fields res)
    {rest : List UInt8} (hres : res = .inl rest) (hq : q ≠ []) : rest.length < q.length :=
  Nat.lt_of_le_of_lt (h.suffix hres).length_le (length_cutLine_lt hq)

/-- **Every body is one of these.** -/
theorem FormBody.exists (closed : Bool) (b : List UInt8) (stack : StackMemory)
    (q : List UInt8) :
    ∃ fields e, FormBody closed b stack q fields e := by
  induction hn : q.length using Nat.strong_induction_on generalizing q with
  | _ n ih =>
    subst hn
    rcases eq_or_ne q [] with rfl | hq
    · exact ⟨[], .endless, .exhausted⟩
    · obtain ⟨fields, res, hpart⟩ := PartBody.exists closed b stack q
      cases res with
      | inr e => exact ⟨fields, e, .last hpart⟩
      | inl rest =>
        obtain ⟨fields', e, hrest⟩ := ih rest.length (hpart.length_lt rfl hq) rest rfl
        exact ⟨fields ++ fields', e, .more hq hpart hrest⟩

/-! ## The stack -/

/-- **Two stacks that make no difference**: wherever `strstr` may be asked, it finds
the boundary on both or on neither. -/
def SameFound (b : List UInt8) (stack stack' : StackMemory) (q : List UInt8) : Prop :=
  ∀ r, marker ++ r <:+ q → boundaryFound b stack r = boundaryFound b stack' r

variable {stack' : StackMemory}

theorem SameFound.suffix (h : SameFound b stack stack' q) {rest : List UInt8}
    (hrest : rest <:+ q) :
    SameFound b stack stack' rest := fun r hr => h r (List.IsSuffix.trans hr hrest)

theorem SameFound.delimited_iff (h : SameFound b stack stack' q) :
    Delimited closed b stack q ↔ Delimited closed b stack' q := by
  refine and_congr_right fun ⟨r, hr⟩ => ?_
  rw [← hr, show (marker ++ r).drop 4 = r from rfl, h r (hr ▸ List.suffix_rfl)]

theorem FileBody.of_sameFound {res : Option (List UInt8)} (h : FileBody closed b stack q res)
    (hfound : SameFound b stack stack' q) : FileBody closed b stack' q res := by
  induction h with
  | cut => exact .cut
  | found hd => exact .found (hfound.delimited_iff.mp hd)
  | next hq hd hrest ih =>
    exact .next hq (fun hd' => hd (hfound.delimited_iff.mpr hd'))
      (ih (hfound.suffix (List.drop_suffix _ _)))

theorem PartBody.of_sameFound {res : List UInt8 ⊕ FormEnd}
    (h : PartBody closed b stack q fields res)
    (hfound : SameFound b stack stack' q) : PartBody closed b stack' q fields res := by
  have hcontents : SameFound b stack stack' (partContents (cutLine q).2) :=
    hfound.suffix (List.IsSuffix.trans (partContents_suffix _) (cutLine_suffix q))
  cases h with
  | skipped h => exact .skipped h
  | field h hname hvalue => exact .field h hname hvalue
  | unclosed h hname hvalue => exact .unclosed h hname hvalue
  | file h hname hfile => exact .file h hname (hfile.of_sameFound hcontents)
  | cut h hname hfile => exact .cut h hname (hfile.of_sameFound hcontents)

/-- **The form is the same on both.** -/
theorem FormBody.of_sameFound (h : FormBody closed b stack q fields e)
    (hfound : SameFound b stack stack' q) : FormBody closed b stack' q fields e := by
  induction h with
  | exhausted => exact .exhausted
  | last h => exact .last (h.of_sameFound hfound)
  | more hq h hrest ih =>
    exact .more hq (h.of_sameFound hfound)
      (ih (hfound.suffix (List.IsSuffix.trans (h.suffix rfl) (cutLine_suffix _))))

/-! ## The array -/

variable {f : FormState} {args : List RequestArgument}

/-- **The array holds these arguments**, and room for more. -/
structure FormState.Holds (f : FormState) (args : List RequestArgument) : Prop where
  room : f.postArgs.length = 32
  count : f.postArgsLen = args.length
  entries : f.postArgs.take f.postArgsLen = args

theorem FormState.holds_start (s : ESP31BWebServer) (l : Link) :
    (FormState.start s l).Holds [] :=
  ⟨List.length_replicate, rfl, rfl⟩

/-- The server and the connection are no part of it. -/
theorem FormState.Holds.goOn (h : f.Holds args) (s : ESP31BWebServer) (l : Link) :
    FormState.Holds { f with server := s, link := l } args := ⟨h.room, h.count, h.entries⟩

/-- **There is room**, and the argument is added. -/
theorem FormState.Holds.addArg (h : f.Holds args) (hroom : args.length < 32)
    (a : RequestArgument) :
    ∃ f', f.addArg a = some f' ∧ f'.Holds (args ++ [a.copied]) ∧ f'.server = f.server ∧
      f'.link = f.link := by
  have hset : Block.set f.postArgs f.postArgsLen a.copied =
      some (List.set f.postArgs f.postArgsLen a.copied) :=
    if_pos (by rw [h.count, h.room]; exact hroom)
  refine ⟨{ f with
    postArgs := List.set f.postArgs f.postArgsLen a.copied
    postArgsLen := f.postArgsLen + 1 }, by rw [FormState.addArg, hset]; rfl,
      ⟨?_, ?_, ?_⟩, rfl, rfl⟩
  · exact (Block.length_of_set hset).trans h.room
  · show f.postArgsLen + 1 = _
    rw [h.count, List.length_append]
    rfl
  · show (List.set f.postArgs f.postArgsLen a.copied).take (f.postArgsLen + 1) = _
    rw [Block.take_of_set hset, h.entries]

/-- Several arguments are added. -/
theorem FormState.Holds.foldlM_addArg {more : List RequestArgument} (h : f.Holds args)
    (hroom : args.length + more.length ≤ 32) :
    ∃ f', more.foldlM FormState.addArg f = some f' ∧
      f'.Holds (args ++ more.map RequestArgument.copied) ∧ f'.server = f.server ∧
      f'.link = f.link := by
  induction more generalizing f args with
  | nil => exact ⟨f, rfl, by rwa [List.map_nil, List.append_nil], rfl, rfl⟩
  | cons a more ih =>
    rw [List.length_cons] at hroom
    obtain ⟨f₁, hadd, hholds, hserver, hlink⟩ := h.addArg (by omega) a
    obtain ⟨f', hrest, hholds', hserver', hlink'⟩ := ih hholds
      (by rw [List.length_append, List.length_singleton]; omega)
    refine ⟨f', ?_, ?_, hserver'.trans hserver, hlink'.trans hlink⟩
    · rw [List.foldlM_cons, hadd]
      exact hrest
    · rwa [List.map_cons, List.append_cons]

/-- **As many of the query's arguments as there is room for.** -/
theorem FormState.Holds.mergeArgs (h : f.Holds args) (hroom : args.length ≤ 32) :
    ∃ f', f.mergeArgs = some f' ∧ f'.Holds (args ++
      (f.server.currentArgs.take (32 - args.length)).map RequestArgument.copied) ∧
      f'.server = f.server ∧ f'.link = f.link := by
  unfold FormState.mergeArgs
  rw [h.count]
  exact h.foldlM_addArg (by rw [List.length_take]; omega)

/-! ## The turns of the loop -/

/-- What a turn of the loop over the parts does on such a part, if its field has
room. -/
def PartTurns (closed : Bool) (b : List UInt8) (stack : StackMemory) (f : FormState)
    (args : List RequestArgument) : List UInt8 ⊕ FormEnd → Prop
  | .inl rest => ∃ f', (formTurn b stack f).Yields (.inl f') ∧ f'.link.Brings closed rest ∧
      f'.Holds args ∧ f'.server.currentArgs = f.server.currentArgs
  | .inr .complete => ∃ f', (formTurn b stack f).Yields (.inr (some (true, f'))) ∧
      f'.Holds args ∧ f'.server.currentArgs = f.server.currentArgs
  | .inr .aborted => ∃ f', (formTurn b stack f).Yields (.inr (some (false, f')))
  | .inr .endless => (formTurn b stack f).Never

variable {argName : WString}

theorem formTurn_skipped (b : List UInt8) (stack : StackMemory) (hl : f.link.Brings closed q)
    (h : partHeader (cutLine q).1 = none) :
    ∃ l', formTurn b stack f = pure (.inl { f with link := l' }) ∧
      l'.Brings closed (cutLine q).2 := by
  obtain ⟨l', hread, hl'⟩ := readLine_brings hl
  refine ⟨l', ?_, hl'⟩
  have hno : (!(cutLine q).1.startsWith (ascii "Content-Disposition") ||
      decide ((cutLine q).1.indexOf 0x3D 0 = -1)) = true := by
    by_contra hsome
    rw [partHeader, if_neg hsome] at h
    cases h
  unfold formTurn formTurnOn
  rw [hread]
  dsimp only
  rw [if_pos hno]

/-- The type of a part, and where its contents are found. -/
def partType (l : Link) : WString × Link :=
  let (line, l) := readLine l
  if line.startsWith (ascii "Content-Type") then
    (line.substring (WString.pos (line.indexOf 0x3A 0 + 2)) line.length, (readLine l).2)
  else (ascii "text/plain", l)

theorem partType_brings (hl : l.Brings closed q) :
    (partType l).2.Brings closed (partContents q) := by
  obtain ⟨l₁, hread₁, hl₁⟩ := readLine_brings hl
  obtain ⟨l₂, hread₂, hl₂⟩ := readLine_brings hl₁
  unfold partType partContents
  rw [hread₁]
  dsimp only
  split
  · rw [hread₂]
    exact hl₂
  · exact hl₁

/-- The turn from the contents of a field on. -/
def fieldTurn (boundary : WString) (f : FormState) (argName : WString) (l : Link) :
    Fueled (FormState ⊕ Option (Bool × FormState)) := do
  let (argValue, line, l) ← Fueled.loop (fun s => pure (valueTurn boundary s)) ([], l)
  match FormState.addArg { f with link := l } ⟨argName, argValue⟩ with
  | none => return .inr none
  | some f =>
    return if line.equals (ascii "--" ++ boundary ++ ascii "--") then .inr (some (true, f))
      else .inl f

/-- The turn from the contents of a file on. -/
def fileTurn (boundary : WString) (stack : StackMemory) (f : FormState)
    (argName argFilename argType : WString) (l : Link) :
    Fueled (FormState ⊕ Option (Bool × FormState)) := do
  let (ok, s, l) ← uploadFileStrstr boundary stack argName argFilename argType f.server l
  if !ok then return .inr (some (false, { f with server := s, link := l }))
  let (line, l) := readLine l
  let f := { f with server := s, link := l }
  return if line.equalsC (ascii "--") then .inr (some (true, f)) else .inl f

/-- The turn behind the first line of a part. -/
theorem formTurn_part (b : List UInt8) (stack : StackMemory) (hl : f.link.Brings closed q)
    (h : partHeader (cutLine q).1 = some argName) :
    ∃ l', l'.Brings closed (cutLine q).2 ∧ formTurn b stack f =
      match (f.server.partName argName).2 with
      | none => fieldTurn b f (f.server.partName argName).1 (partType l').2
      | some argFilename =>
        fileTurn b stack f (f.server.partName argName).1 argFilename (partType l').1
          (partType l').2 := by
  obtain ⟨l', hread, hl'⟩ := readLine_brings hl
  refine ⟨l', hl', ?_⟩
  have hsome : ¬ (!(cutLine q).1.startsWith (ascii "Content-Disposition") ||
      decide ((cutLine q).1.indexOf 0x3D 0 = -1)) = true := by
    intro hno
    rw [partHeader, if_pos hno] at h
    cases h
  rw [partHeader, if_neg hsome, Option.some.injEq] at h
  unfold formTurn formTurnOn
  rw [hread]
  dsimp only
  rw [if_neg hsome, h]
  rfl

theorem formTurn_field (b : List UInt8) (stack : StackMemory) (hl : f.link.Brings closed q)
    (h : partHeader (cutLine q).1 = some argName) (hname : namesFile argName = false) :
    ∃ l', l'.Brings closed (partContents (cutLine q).2) ∧
      formTurn b stack f = fieldTurn b f (fieldName argName) l' := by
  obtain ⟨l', hl', hturn⟩ := formTurn_part b stack hl h
  have hpart : f.server.partName argName = (fieldName argName, none) := by
    rw [partName, if_pos (by simpa [namesFile] using hname)]
    rfl
  refine ⟨_, partType_brings hl', ?_⟩
  rw [hturn, hpart]

theorem formTurn_file (b : List UInt8) (stack : StackMemory) (hl : f.link.Brings closed q)
    (h : partHeader (cutLine q).1 = some argName) (hname : namesFile argName = true) :
    ∃ name filename type l', l'.Brings closed (partContents (cutLine q).2) ∧
      formTurn b stack f = fileTurn b stack f name filename type l' := by
  obtain ⟨l', hl', hturn⟩ := formTurn_part b stack hl h
  obtain ⟨name, filename, hpart⟩ :
      ∃ name filename, f.server.partName argName = (name, some filename) := by
    rw [partName, if_neg (by simpa [namesFile] using hname)]
    exact ⟨_, _, rfl⟩
  refine ⟨name, filename, (partType l').1, (partType l').2, partType_brings hl', ?_⟩
  rw [hturn, hpart]

/-- The turn over a field, as far as its place in the array. -/
theorem formTurn_value (stack : StackMemory) {rest : List UInt8} {v line : WString}
    (hl : f.link.Brings closed q)
    (h : partHeader (cutLine q).1 = some argName) (hname : namesFile argName = false)
    (hvalue : ValueBody b [] (partContents (cutLine q).2) v line rest) :
    ∃ l', l'.Brings closed rest ∧ ∀ r : Option FormState,
      FormState.addArg { f with link := l' } ⟨fieldName argName, v⟩ = r →
      (formTurn b stack f).Yields (match r with
        | none => .inr none
        | some f => if line.equals (ascii "--" ++ b ++ ascii "--") then .inr (some (true, f))
            else .inl f) := by
  obtain ⟨l₁, hl₁, hturn⟩ := formTurn_field b stack hl h hname
  obtain ⟨l', hloop, hl'⟩ := hvalue.yields hl₁
  refine ⟨l', hl', fun r hr => ?_⟩
  rw [hturn]
  refine hloop.bind ?_
  dsimp only
  rw [hr]
  cases r <;> exact Fueled.yields_pure _

/-- **Every turn of the loop over the parts** whose field has room. -/
theorem PartBody.turns {res : List UInt8 ⊕ FormEnd} (h : PartBody closed b stack q fields res)
    (hl : f.link.Brings closed q) (hf : f.Holds args)
    (hroom : args.length + fields.length ≤ 32) :
    PartTurns closed b stack f (args ++ fields) res := by
  cases h with
  | skipped h =>
    obtain ⟨l', hturn, hl'⟩ := formTurn_skipped b stack hl h
    refine ⟨{ f with link := l' }, hturn ▸ Fueled.yields_pure _, hl', ?_, rfl⟩
    rw [List.append_nil]
    exact hf.goOn f.server l'
  | @field rest argName v line h hname hvalue =>
    obtain ⟨l', hl', hyields⟩ := formTurn_value stack hl h hname hvalue
    obtain ⟨f', hadd, hholds, hserver, hlink⟩ :=
      (hf.goOn f.server l').addArg hroom ⟨fieldName argName, v⟩
    have hturn := hyields _ hadd
    have hargs : f'.server.currentArgs = f.server.currentArgs := by rw [hserver]
    -- the field is added whether or not its delimiter closes the form
    by_cases hline : line.equals (ascii "--" ++ b ++ ascii "--") = true
    · rw [if_pos hline]
      dsimp only at hturn
      rw [if_pos hline] at hturn
      exact ⟨f', hturn, hholds, hargs⟩
    · rw [if_neg hline]
      dsimp only at hturn
      rw [if_neg hline] at hturn
      exact ⟨f', hturn, hlink ▸ hl', hholds, hargs⟩
  | unclosed h hname hvalue =>
    obtain ⟨l₁, hl₁, hturn⟩ := formTurn_field b stack hl h hname
    show (formTurn b stack f).Never
    rw [hturn]
    exact (valueLoop_never hvalue hl₁).bind _
  | @file rest argName h hname hfile =>
    obtain ⟨name, filename, type, l₁, hl₁, hturn⟩ := formTurn_file b stack hl h hname
    obtain ⟨s', l₂, hupload, hl₂⟩ :=
      hfile.uploadFileStrstr_found hl₁ name filename type f.server
    have hargs : s'.currentArgs = f.server.currentArgs := uploadFileStrstr_currentArgs hupload
    obtain ⟨l', hread, hl'⟩ := readLine_brings hl₂
    have hyields : (formTurn b stack f).Yields
        (if (cutLine rest).1.equalsC (ascii "--")
          then .inr (some (true, { f with server := s', link := l' }))
        else .inl { f with server := s', link := l' }) := by
      rw [hturn]
      refine hupload.bind ?_
      dsimp only
      rw [hread]
      exact Fueled.yields_pure _
    rw [List.append_nil]
    by_cases hline : (cutLine rest).1.equalsC (ascii "--") = true
    · rw [if_pos hline] at hyields ⊢
      exact ⟨_, hyields, hf.goOn s' l', hargs⟩
    · rw [if_neg hline] at hyields ⊢
      exact ⟨_, hyields, hl', hf.goOn s' l', hargs⟩
  | cut h hname hfile =>
    obtain ⟨name, filename, type, l₁, hl₁, hturn⟩ := formTurn_file b stack hl h hname
    cases closed with
    | true =>
      obtain ⟨s', l₂, hupload⟩ := hfile.uploadFileStrstr_cut hl₁ name filename type f.server
      refine ⟨{ f with server := s', link := l₂ }, ?_⟩
      rw [hturn]
      exact hupload.bind (Fueled.yields_pure _)
    | false =>
      show (formTurn b stack f).Never
      rw [hturn]
      exact (hfile.uploadFileStrstr_never hl₁ name filename type f.server).bind _

/-- **A form that is complete is read**, with its fields in order. -/
theorem FormBody.yields_complete (h : FormBody closed b stack q fields e) (he : e = .complete)
    (hl : f.link.Brings closed q) (hf : f.Holds args)
    (hroom : args.length + fields.length ≤ 32) :
    ∃ f', (Fueled.loop (formTurn b stack) f).Yields (some (true, f')) ∧
      f'.Holds (args ++ fields) ∧
      f'.server.currentArgs = f.server.currentArgs := by
  induction h generalizing f args with
  | exhausted => cases he
  | last h =>
    subst he
    obtain ⟨f', hturn, hholds, hargs⟩ := h.turns hl hf hroom
    exact ⟨f', Fueled.yields_loop_leave hturn, hholds, hargs⟩
  | more hq h hrest ih =>
    rw [List.length_append] at hroom
    obtain ⟨f₁, hturn, hl₁, hholds₁, hargs₁⟩ := h.turns hl hf (by omega)
    obtain ⟨f', hloop, hholds, hargs⟩ := ih he hl₁ hholds₁ (by rw [List.length_append]; omega)
    refine ⟨f', Fueled.yields_loop_again hturn hloop, ?_, hargs.trans hargs₁⟩
    rwa [← List.append_assoc]

/-- **So is one that is aborted.** -/
theorem FormBody.yields_aborted (h : FormBody closed b stack q fields e) (he : e = .aborted)
    (hl : f.link.Brings closed q) (hf : f.Holds args)
    (hroom : args.length + fields.length ≤ 32) :
    ∃ f', (Fueled.loop (formTurn b stack) f).Yields (some (false, f')) := by
  induction h generalizing f args with
  | exhausted => cases he
  | last h =>
    subst he
    obtain ⟨f', hturn⟩ := h.turns hl hf hroom
    exact ⟨f', Fueled.yields_loop_leave hturn⟩
  | more hq h hrest ih =>
    rw [List.length_append] at hroom
    obtain ⟨f₁, hturn, hl₁, hholds₁, -⟩ := h.turns hl hf (by omega)
    obtain ⟨f', hloop⟩ := ih he hl₁ hholds₁ (by rw [List.length_append]; omega)
    exact ⟨f', Fueled.yields_loop_again hturn hloop⟩

/-- The first line of a form, as `firstLine` reads it. -/
def cutFirst : ℕ → List UInt8 → WString × List UInt8
  | 0, q => ([], q)
  | n + 1, q =>
    if (cutAt 0x0D q).1.length = 0 ∧ 0 < n then cutFirst n (cutAt 0x0D q).2 else cutAt 0x0D q

theorem firstLine_brings (n : ℕ) (hl : l.Brings closed q) :
    ∃ l', firstLine n l = ((cutFirst n q).1, l') ∧ l'.Brings closed (cutFirst n q).2 := by
  induction n generalizing q l with
  | zero => exact ⟨l, rfl, hl⟩
  | succ n ih =>
    obtain ⟨l₁, hread, hl₁⟩ := hl.readStringUntil_eq 0x0D
    unfold cutFirst firstLine
    rw [hread]
    dsimp only
    split
    · exact ih hl₁
    · exact ⟨l₁, rfl, hl₁⟩

/-- The parts of a form, if its first line is the delimiter. -/
def formStart (b : WString) (q : List UInt8) : Option (List UInt8) :=
  if (cutFirst 3 q).1.equals (ascii "--" ++ b) then some (cutAt 0x0A (cutFirst 3 q).2).2
    else none

/-- What `_parseForm` makes of the loop over the parts. -/
def formResult : Option (Bool × FormState) → Option (Bool × ESP31BWebServer × Link)
  | none => none
  | some (false, f) => some (false, f.server, f.link)
  | some (true, f) => f.mergeArgs.map fun f =>
    (true, { f.server with
      currentArgs := (f.postArgs.take f.postArgsLen).map RequestArgument.copied }, f.link)

/-- **A form that starts with the delimiter** goes to the loop over the parts. -/
theorem parseFormArray_of_start (stack : StackMemory) (s : ESP31BWebServer) {body : List UInt8}
    (hl : l.Brings closed q) (hstart : formStart b q = some body) :
    ∃ l', l'.Brings closed body ∧ parseFormArray b stack s l =
      (Fueled.loop (formTurn b stack) (FormState.start s l') >>= fun r =>
        pure (formResult r)) := by
  obtain ⟨l₁, hfirst, hl₁⟩ := firstLine_brings 3 hl
  obtain ⟨l₂, hread, hl₂⟩ := hl₁.readStringUntil_eq 0x0A
  unfold formStart at hstart
  split at hstart
  · rename_i hline
    cases hstart
    refine ⟨l₂, hl₂, ?_⟩
    unfold parseFormArray parseFormArrayOn
    rw [hfirst]
    dsimp only
    rw [hread]
    dsimp only
    rw [if_pos hline]
    congr 1
    funext r
    unfold formResult
    match r with
    | none => rfl
    | some (false, f) => rfl
    | some (true, f) =>
      dsimp only
      cases f.mergeArgs <;> rfl
  · cases hstart

theorem parseFormArray_of_no_start (stack : StackMemory) (s : ESP31BWebServer)
    (hl : l.Brings closed q)
    (hstart : formStart b q = none) :
    ∃ l', parseFormArray b stack s l = pure (some (false, s, l')) := by
  obtain ⟨l₁, hfirst, hl₁⟩ := firstLine_brings 3 hl
  obtain ⟨l₂, hread, hl₂⟩ := hl₁.readStringUntil_eq 0x0A
  have hline : ¬ (cutFirst 3 q).1.equals (ascii "--" ++ b) = true := by
    intro hyes
    rw [formStart, if_pos hyes] at hstart
    cases hstart
  refine ⟨l₂, ?_⟩
  unfold parseFormArray parseFormArrayOn
  rw [hfirst]
  dsimp only
  rw [hread]
  dsimp only
  rw [if_neg hline]

/-- What is assigned twice is as it was the first time. -/
theorem copied_copied (a : RequestArgument) : a.copied.copied = a.copied := by
  unfold RequestArgument.copied
  rw [WString.cleared_cleared, WString.cleared_cleared]

/-- The fields of a form have been assigned once. -/
theorem FormBody.fields_copied (h : FormBody closed b stack q fields e) :
    fields.map RequestArgument.copied = fields := by
  have hpart : ∀ {q fields res}, PartBody closed b stack q fields res →
      fields.map RequestArgument.copied = fields := by
    intro q fields res h
    cases h with
    | field => rw [List.map_singleton, copied_copied]
    | _ => rfl
  induction h with
  | exhausted => rfl
  | last h => exact hpart h
  | more hq h hrest ih => rw [List.map_append, hpart h, ih]

variable {s : ESP31BWebServer} {body : List UInt8}

/-- **A complete form** whose fields have room. -/
theorem FormBody.parseFormArray_complete (h : FormBody closed b stack body fields .complete)
    (hl : l.Brings closed q) (hstart : formStart b q = some body) (hroom : fields.length ≤ 32) :
    ∃ s' l', (parseFormArray b stack s l).Yields (some (true, s', l')) ∧ s'.currentArgs =
      fields ++ (s.currentArgs.take (32 - fields.length)).map RequestArgument.copied := by
  obtain ⟨l₁, hl₁, heq⟩ := parseFormArray_of_start stack s hl hstart
  obtain ⟨f, hloop, hholds, hargs⟩ := h.yields_complete rfl hl₁ (FormState.holds_start s l₁)
    (by rwa [List.length_nil, Nat.zero_add])
  rw [List.nil_append] at hholds
  obtain ⟨f', hmerge, hholds', -, -⟩ := hholds.mergeArgs hroom
  refine ⟨{ f'.server with
    currentArgs :=
      (f'.postArgs.take f'.postArgsLen).map RequestArgument.copied }, f'.link, ?_, ?_⟩
  · rw [heq]
    refine hloop.bind ?_
    rw [formResult, hmerge]
    exact Fueled.yields_pure _
  · show (f'.postArgs.take f'.postArgsLen).map RequestArgument.copied = _
    rw [hholds'.entries, List.map_append, h.fields_copied, List.map_map, hargs]
    congr 1
    exact List.map_congr_left fun a _ => copied_copied a

/-- **A form that is aborted.** -/
theorem FormBody.parseFormArray_aborted (h : FormBody closed b stack body fields .aborted)
    (hl : l.Brings closed q) (hstart : formStart b q = some body) (hroom : fields.length ≤ 32) :
    ∃ s' l', (parseFormArray b stack s l).Yields (some (false, s', l')) := by
  obtain ⟨l₁, hl₁, heq⟩ := parseFormArray_of_start stack s hl hstart
  obtain ⟨f, hloop⟩ := h.yields_aborted rfl hl₁ (FormState.holds_start s l₁)
    (by rwa [List.length_nil, Nat.zero_add])
  exact ⟨f.server, f.link, heq ▸ hloop.bind (Fueled.yields_pure _)⟩

end

end ESP31BWebServer
