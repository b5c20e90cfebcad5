import Esp31b.Machine
import Esp31b.StringReplace
import Mathlib.Logic.Function.Basic

/-!
# Any operations on any strings

A program has strings and calls their operations, in any order, with each other
as arguments. Every string is valid at every time if the conditions hold that
`StringValid` and `StringReplace` found for single calls
(`StringObject.valid_of_run`).

They do not hold by themselves. A string that was moved from keeps its text and
has length 0: when the text was copied to a string that had room for it, no NUL
is put in front of it.
-/

namespace StringObject

/-- A C string. -/
def CText : Type := { t : List UInt8 // 0 ∉ t }

/-- The length of an argument, which may be null. -/
def CText.length : Option CText → ℕ
  | none => 0
  | some t => t.val.length

/-- The operations that have no other string. -/
inductive Edit where
  | assignText (cstr : Option CText)
  | concatText (cstr : Option CText)
  | concatFlash (str : Option CText)
  | concatChar (c : UInt8)
  | setCharAt (loc : ℕ) (c : UInt8)
  | replaceChar (find replace : UInt8)
  | remove (index count : ℕ)
  | trim
  | toLowerCase
  | toUpperCase
  | reserve (size : ℕ)

namespace Edit

/-- The string afterwards. -/
def run (s : StringObject) : Edit → Option StringObject
  | assignText cstr => s.assignText (cstr.map Subtype.val) true
  | concatText cstr => (s.concatText (cstr.map Subtype.val) true).map Prod.snd
  | concatFlash str => (s.concatFlash (str.map Subtype.val) true).map Prod.snd
  | concatChar c => (s.concatChar c true).map Prod.snd
  | setCharAt loc c => s.setCharAt loc c
  | replaceChar find replace => s.replaceChar find replace
  | remove index count => s.remove index count
  | trim => s.trim
  | toLowerCase => s.toLowerCase
  | toUpperCase => s.toUpperCase
  | reserve size => (s.reserve size true).map Prod.snd

/-- **Lengths are below `2 ^ 31`.** -/
def Short (s : StringObject) : Edit → Prop
  | assignText cstr => CText.length cstr < 2 ^ 31
  | concatText cstr => s.len + CText.length cstr < 2 ^ 31
  | concatFlash str => s.len + CText.length str < 2 ^ 31
  | concatChar _ => s.len + 1 < 2 ^ 31
  | reserve size => size < 2 ^ 31
  | _ => True

/-- **A NUL that is appended** finds one behind it. -/
def Sound (s : StringObject) : Edit → Prop
  | concatChar c => c ≠ 0 ∨ s.ZeroAt (s.len + 1)
  | _ => True

instance (s : StringObject) : (e : Edit) → Decidable (e.Short s)
  | assignText _ | concatText _ | concatFlash _ | concatChar _ | reserve _ =>
    inferInstanceAs (Decidable (_ < _))
  | setCharAt _ _ | replaceChar _ _ | remove _ _ | trim | toLowerCase | toUpperCase =>
    inferInstanceAs (Decidable True)

instance (s : StringObject) : (e : Edit) → Decidable (e.Sound s)
  | concatChar _ => inferInstanceAs (Decidable (_ ∨ _))
  | assignText _ | concatText _ | concatFlash _ | reserve _ | setCharAt _ _ | replaceChar _ _ |
    remove _ _ | trim
  | toLowerCase | toUpperCase => inferInstanceAs (Decidable True)

end Edit

/-- The operations on the strings of a program. -/
inductive Op where
  | ofText (i : ℕ) (cstr : Option CText)
  | ofCopy (i j : ℕ)
  | ofMove (i j : ℕ)
  | edit (i : ℕ) (e : Edit)
  | assign (i j : ℕ)
  | moveAssign (i j : ℕ)
  | concat (i j : ℕ)
  | replace (i j k : ℕ)
  | substring (i k left right : ℕ)

namespace Op

/-- The strings afterwards. -/
def step (st : ℕ → StringObject) : Op → Option (ℕ → StringObject)
  | ofText i cstr => do
    let s ← StringObject.ofText (cstr.map Subtype.val) true
    return Function.update st i s
  | ofCopy i j => do
    let s ← StringObject.ofCopy (st j) true
    return Function.update st i s
  | ofMove i j => do
    let (s, rval) ← StringObject.ofMove (st j)
    return Function.update (Function.update st i s) j rval
  | edit i e => do
    let s ← e.run (st i)
    return Function.update st i s
  | assign i j => do
    let s ← (st i).assign (st j) true
    return Function.update st i s
  | moveAssign i j => do
    let (s, rhs) ← (st i).move (st j)
    return Function.update (Function.update st i s) j rhs
  | concat i j => do
    let (_, s) ← (st i).concat (st j) true
    return Function.update st i s
  | replace i j k => do
    let s ← (st i).replace (st j) (st k) true
    return Function.update st i s
  | substring i k left right => do
    let (s, out) ← (st i).substring left right true
    return Function.update (Function.update st i s) k out

/-- **The arguments are other objects**, and lengths are below `2 ^ 31`. -/
def Assumed (st : ℕ → StringObject) : Op → Prop
  | ofText _ cstr => CText.length cstr < 2 ^ 31
  | ofCopy i j => i ≠ j
  | ofMove i j => i ≠ j
  | edit i e => e.Short (st i)
  | assign i j => i ≠ j
  | moveAssign i j => i ≠ j
  | concat i j => i ≠ j ∧ (st i).len + (st j).len < 2 ^ 31
  | replace i j k => i ≠ j ∧ i ≠ k ∧ (st i).lenReplaced (st j) (st k) < 2 ^ 31
  | substring i k _ _ => i ≠ k

/-- **What is needed of the strings**, apart from being valid. -/
def Sound (st : ℕ → StringObject) : Op → Prop
  | ofText _ _ => True
  | ofCopy _ j => Arrives (st j) init (st j).len
  | ofMove _ _ => True
  | edit i e => e.Sound (st i)
  | assign i j => Arrives (st j) (st i) (st j).len
  | moveAssign i j => Moves (st j) (st i)
  | concat i j => Arrives (st j) (st i) ((st i).len + (st j).len)
  | replace i j k => Replaces (st i) (st j) (st k)
  | substring _ _ _ _ => True

instance (st : ℕ → StringObject) : (op : Op) → Decidable (op.Assumed st)
  | ofText _ _ => inferInstanceAs (Decidable (_ < _))
  | ofCopy _ _ | ofMove _ _ | assign _ _ | moveAssign _ _ | substring _ _ _ _ =>
    inferInstanceAs (Decidable (_ ≠ _))
  | edit _ e => inferInstanceAs (Decidable (e.Short _))
  | concat _ _ => inferInstanceAs (Decidable (_ ∧ _))
  | replace _ _ _ => inferInstanceAs (Decidable (_ ∧ _ ∧ _))

instance (st : ℕ → StringObject) : (op : Op) → Decidable (op.Sound st)
  | ofText _ _ | ofMove _ _ | substring _ _ _ _ => inferInstanceAs (Decidable True)
  | ofCopy _ _ | assign _ _ | concat _ _ => inferInstanceAs (Decidable (Arrives _ _ _))
  | edit _ e => inferInstanceAs (Decidable (e.Sound _))
  | moveAssign _ _ => inferInstanceAs (Decidable (Moves _ _))
  | replace _ _ _ => inferInstanceAs (Decidable (Replaces _ _ _))

end Op

/-! ## One string -/

/-- A valid string of a length below `2 ^ 31`. -/
structure Regular (s : StringObject) : Prop where
  valid : s.Valid
  short : s.len < 2 ^ 31

theorem regular_init : init.Regular := ⟨valid_init, by decide⟩

variable {s rhs : StringObject}

theorem regular_assignText (hs : s.Regular) (cstr : Option CText)
    (hlen : CText.length cstr < 2 ^ 31) :
    ∃ t, s.assignText (cstr.map Subtype.val) true = some t ∧ t.Regular := by
  cases cstr with
  | none => exact ⟨init, rfl, regular_init⟩
  | some d =>
    obtain ⟨t, ht, hvalid, htlen⟩ := exists_copy (d := d.val) hs.valid hlen le_rfl (Or.inl rfl)
    exact ⟨t, ht, hvalid, htlen.trans_lt hlen⟩

/-- **A text that is appended**, whose length is that of its bytes. -/
theorem regular_concatText (hs : s.Regular) (cstr : Option CText)
    (hlen : s.len + CText.length cstr < 2 ^ 31) :
    ∃ t, (s.concatText (cstr.map Subtype.val) true).map Prod.snd = some t ∧ t.Regular := by
  cases cstr with
  | none => exact ⟨s, rfl, hs⟩
  | some d =>
    obtain ⟨r, t, ht, hvalid, htlen⟩ := exists_concatFrom (d := d.val)
      hs.valid hlen le_rfl (Or.inl rfl)
    exact ⟨t, congrArg (Option.map Prod.snd) ht, hvalid, htlen.trans_lt hlen⟩

theorem concatFlash_eq (s : StringObject) (str : Option (List UInt8)) (malloc : Bool) :
    s.concatFlash str malloc = s.concatText str malloc := by
  cases str <;> rfl

/-- **An operation without another string.** -/
theorem regular_edit (hs : s.Regular) (e : Edit) (hshort : e.Short s) (hsound : e.Sound s) :
    ∃ t, e.run s = some t ∧ t.Regular := by
  cases e with
  | assignText cstr => exact regular_assignText hs cstr hshort
  | concatText cstr => exact regular_concatText hs cstr hshort
  | concatFlash str =>
    obtain ⟨t, ht, hregular⟩ := regular_concatText hs str hshort
    exact ⟨t, by rw [Edit.run, concatFlash_eq, ht], hregular⟩
  | concatChar c =>
    have hcstr : (cstr [c]).length = 1 ∨ c = 0 := by
      by_cases hc : c = 0
      · exact Or.inr hc
      · exact Or.inl (by unfold cstr; rw [List.takeWhile_cons_of_pos (by simpa using hc)]; rfl)
    obtain ⟨r, t, ht, hvalid, htlen⟩ :=
      exists_concatFrom (d := cstr [c]) (n := 1) hs.valid hshort
      (length_cstr_le _)
      (hcstr.imp_right fun hc => hsound.resolve_left fun hne => hne hc)
    exact ⟨t, congrArg (Option.map Prod.snd) ht, hvalid, htlen.trans_lt hshort⟩
  | setCharAt loc c =>
    obtain ⟨t, ht, hvalid, hlen⟩ := exists_setCharAt hs.valid loc c
    exact ⟨t, ht, hvalid, hlen.trans_lt hs.short⟩
  | replaceChar find replace =>
    obtain ⟨t, ht, hvalid, hlen⟩ :=
      exists_mapText hs.valid fun c => if c = find then replace else c
    exact ⟨t, ht, hvalid, hlen.trans_lt hs.short⟩
  | remove index count =>
    obtain ⟨t, ht, hvalid, hlen⟩ := exists_remove hs.valid index count
    exact ⟨t, ht, hvalid, hlen.trans_lt hs.short⟩
  | trim =>
    obtain ⟨t, ht, hvalid, hlen⟩ := exists_trim hs.valid
    exact ⟨t, ht, hvalid, hlen.trans_lt hs.short⟩
  | toLowerCase =>
    obtain ⟨t, ht, hvalid, hlen⟩ := exists_mapText hs.valid tolower
    exact ⟨t, ht, hvalid, hlen.trans_lt hs.short⟩
  | toUpperCase =>
    obtain ⟨t, ht, hvalid, hlen⟩ := exists_mapText hs.valid toupper
    exact ⟨t, ht, hvalid, hlen.trans_lt hs.short⟩
  | reserve size =>
    have hsize : size < 2 ^ 31 := hshort
    obtain ⟨t, ht, hreserved⟩ := exists_reserve hs.valid (by omega : size + 16 < 2 ^ 32)
    exact ⟨t, congrArg (Option.map Prod.snd) ht, hreserved.valid,
      hreserved.len.trans_lt hs.short⟩

/-! ## All of them -/

variable {st : ℕ → StringObject} {i j : ℕ}

theorem regular_update (h : ∀ i, (st i).Regular) (hs : s.Regular) (i : ℕ) :
    ∀ k, (Function.update st i s k).Regular :=
  (Function.forall_update_iff st fun _ s => s.Regular).mpr ⟨hs, fun k _ => h k⟩

/-- **One operation.** -/
theorem regular_step (h : ∀ i, (st i).Regular) (op : Op) (hassumed : op.Assumed st)
    (hsound : op.Sound st) :
    ∃ st', op.step st = some st' ∧ ∀ i, (st' i).Regular := by
  cases op with
  | ofText i cstr =>
    obtain ⟨t, ht, hregular⟩ := regular_assignText regular_init cstr hassumed
    have hof : StringObject.ofText (cstr.map Subtype.val) true = some t := by
      cases cstr with
      | none => exact ht
      | some d => exact ht
    exact ⟨_, by rw [Op.step, hof]; rfl, regular_update h hregular i⟩
  | ofCopy i j =>
    obtain ⟨t, ht, hvalid, hlen⟩ := exists_assign valid_init (h j).valid (h j).short hsound
    have hof : StringObject.ofCopy (st j) true = some t := ht
    exact ⟨_, by rw [Op.step, hof]; rfl, regular_update h ⟨hvalid, hlen.trans_lt (h j).short⟩ i⟩
  | ofMove i j => exact ⟨_, rfl, regular_update (regular_update h (h j) i) regular_init j⟩
  | edit i e =>
    obtain ⟨t, ht, hregular⟩ := regular_edit (h i) e hassumed hsound
    exact ⟨_, by rw [Op.step, ht]; rfl, regular_update h hregular i⟩
  | assign i j =>
    obtain ⟨t, ht, hvalid, hlen⟩ := exists_assign (h i).valid (h j).valid (h j).short hsound
    exact ⟨_, by rw [Op.step, ht]; rfl, regular_update h ⟨hvalid, hlen.trans_lt (h j).short⟩ i⟩
  | moveAssign i j =>
    obtain ⟨t, u, ht, hvalid, huvalid, hlen, hulen⟩ :=
      exists_move (h i).valid (h j).valid hsound
    refine ⟨_, by rw [Op.step, ht]; rfl, regular_update (regular_update h ?_ i) ?_ j⟩
    · exact ⟨hvalid, hlen.trans_lt (h j).short⟩
    · exact ⟨huvalid, hulen.trans_lt (by decide)⟩
  | concat i j =>
    obtain ⟨r, t, ht, hvalid, hlen⟩ := exists_concat (h i).valid (h j).valid hassumed.2 hsound
    exact ⟨_, by rw [Op.step, ht]; rfl, regular_update h ⟨hvalid, hlen.trans_lt hassumed.2⟩ i⟩
  | replace i j k =>
    obtain ⟨t, ht, hvalid, hlen⟩ := exists_replace (h i).valid (h j).valid
      (h k).valid hassumed.2.2 hsound
    exact ⟨_, by rw [Op.step, ht]; rfl, regular_update h ⟨hvalid, hlen.trans_lt hassumed.2.2⟩ i⟩
  | substring i k left right =>
    obtain ⟨t, ht, hvalid, hlen⟩ := exists_substring (h i).valid (h i).short left right
    refine ⟨_, by rw [Op.step, ht]; rfl, regular_update (regular_update h (h i) i) ?_ k⟩
    exact ⟨hvalid, hlen.trans_lt (h i).short⟩

/-- The program: there are no strings at first. -/
def program : Machine (ℕ → StringObject) Op := ⟨Op.step⟩

/-- No strings. -/
def noStrings : ℕ → StringObject := fun _ => init

/-- **Every string is valid**, in every run, and no access is outside. -/
theorem valid_of_run {ops : List Op}
    (h : program.Along (fun st op => op.Assumed st ∧ op.Sound st) noStrings ops) :
    ∃ st, program.run noStrings ops = some st ∧ ∀ i, (st i).Valid := by
  obtain ⟨st, hrun, hregular⟩ :=
    Machine.exists_run_of_along (I := fun st => ∀ i, (st i).Regular)
    (fun st op hst hop => regular_step hst op hop.1 hop.2) (fun _ => regular_init) h
  exact ⟨st, hrun, fun i => (hregular i).valid⟩

/-- Strings are copied, moved to new ones and replaced in. -/
theorem valid_of_run_replace :
    ∃ st, program.run noStrings
        [.ofText 0 (some ⟨ascii "abc", by decide⟩), .ofCopy 1 0, .concat 1 0,
          .ofText 2 (some ⟨ascii "b", by decide⟩),
          .ofText 3 (some ⟨ascii "xyz", by decide⟩), .replace 1 2 3, .ofMove 4 1,
          .substring 4 5 1 3, .edit 4 .trim] =
        some st ∧ ∀ i, (st i).Valid :=
  valid_of_run (by decide)

/-- **Not every run**: `b = std::move(a)`, where there is room in `b`. -/
theorem not_valid_moved :
    ¬ ∀ ops, program.Along (fun st op => op.Assumed st) noStrings ops →
      ∃ st, program.run noStrings ops = some st ∧ ∀ i, (st i).Valid := by
  intro h
  obtain ⟨st, hrun, hvalid⟩ := h
    [.ofText 0 (some ⟨ascii "ab", by decide⟩), .ofText 1 (some ⟨ascii "x", by decide⟩),
      .moveAssign 1 0] (by decide)
  have hmoved : (program.run noStrings
      [.ofText 0 (some ⟨ascii "ab", by decide⟩), .ofText 1 (some ⟨ascii "x", by decide⟩),
        .moveAssign 1 0]).map
        (fun st => decide (st 0).Valid) = some false := by
    decide
  rw [hrun] at hmoved
  exact of_decide_eq_false (Option.some.inj hmoved) (hvalid 0)

end StringObject
