import Esp31b.WString

/-!
# Collected headers

Server and client collect header values in the same way: an array of keys
was set up beforehand, every header line that is read is looked up in it, and
the first key that matches gets the value. They differ in when a key matches
a name – in the case of letters – so that is a parameter here: `norm` maps
both to what is compared.

What comes of a list of lines is then what one expects, `collect_cons`: the
first of equal keys has the value of the last line with its name, and the
others stay as they are.
-/

namespace Collected

variable (norm : WString → WString)

/-- The first matching key gets the value. -/
def setFirst (name value : WString) : List RequestArgument → List RequestArgument
  | [] => []
  | a :: as =>
    if norm a.key = norm name then ⟨a.key, value⟩ :: as else a :: setFirst name value as

/-- All lines in turn. -/
def collect (lines hs : List RequestArgument) : List RequestArgument :=
  lines.foldl (fun hs f => setFirst norm f.key f.value hs) hs

/-- The value of the last line with a name. -/
def lastValue (lines : List RequestArgument) (name : WString) : Option WString :=
  (lines.reverse.find? (fun f => norm f.key = norm name)).map RequestArgument.value

variable {norm} {lines as : List RequestArgument} {a f : RequestArgument} {name value : WString}

@[simp] theorem lastValue_nil : lastValue norm [] name = none := rfl

/-- One line more in front. -/
theorem lastValue_cons : lastValue norm (f :: lines) name =
    (lastValue norm lines name).or (if norm f.key = norm name then some f.value else none) := by
  unfold lastValue
  rw [List.reverse_cons, List.find?_append]
  cases List.find? (fun f => decide (norm f.key = norm name)) lines.reverse with
  | some g => rfl
  | none =>
    by_cases h : norm f.key = norm name
    · simp [h]
    · simp [h]

/-- More lines behind. -/
theorem lastValue_append (lines more : List RequestArgument) (name : WString) :
    lastValue norm (lines ++ more) name =
      (lastValue norm more name).or (lastValue norm lines name) := by
  induction lines with
  | nil => simp
  | cons f lines ih =>
      rw [List.cons_append, lastValue_cons, ih, lastValue_cons, Option.or_assoc]

/-- There is a last line with a name if there is one at all. -/
theorem lastValue_isSome :
    (lastValue norm lines name).isSome = true ↔ ∃ f ∈ lines, norm f.key = norm name := by
  unfold lastValue
  rw [Option.isSome_map, List.find?_isSome]
  simp

theorem lastValue_congr {name' : WString} (h : norm name = norm name') :
    lastValue norm lines name = lastValue norm lines name' := by
  unfold lastValue
  rw [h]

/-- Lines with other names do not matter. -/
theorem lastValue_filter {key : WString} (h : norm name ≠ norm key) :
    lastValue norm (lines.filter (fun f => norm f.key ≠ norm key)) name =
      lastValue norm lines name := by
  induction lines with
  | nil => rfl
  | cons f lines ih =>
    by_cases hf : norm f.key = norm key
    · rw [List.filter_cons_of_neg (by simpa using hf), ih, lastValue_cons,
        if_neg (fun h' => h (h'.symm.trans hf)), Option.or_none]
    · rw [List.filter_cons_of_pos (by simpa using hf), lastValue_cons, lastValue_cons, ih]

/-- No line with the key is left. -/
theorem lastValue_filter_self {key : WString} (h : norm name = norm key) :
    lastValue norm (lines.filter (fun f => norm f.key ≠ norm key)) name = none := by
  rw [← Option.not_isSome_iff_eq_none, lastValue_isSome]
  rintro ⟨f, hf, hname⟩
  have hne := (List.mem_filter.mp hf).2
  simp [hname, h] at hne

theorem setFirst_keys (name value : WString) (as : List RequestArgument) :
    (setFirst norm name value as).map RequestArgument.key = as.map RequestArgument.key := by
  induction as with
  | nil => rfl
  | cons a as ih =>
    unfold setFirst
    split
    · rfl
    · rw [List.map_cons, List.map_cons, ih]

theorem collect_keys (lines as : List RequestArgument) :
    (collect norm lines as).map RequestArgument.key = as.map RequestArgument.key := by
  unfold collect
  induction lines generalizing as with
  | nil => rfl
  | cons f lines ih => rw [List.foldl_cons, ih, setFirst_keys]

@[simp] theorem collect_nil (lines : List RequestArgument) : collect norm lines [] = [] := by
  unfold collect
  induction lines with
  | nil => rfl
  | cons f lines ih => exact ih

/-- Lines after lines. -/
theorem collect_append (lines more as : List RequestArgument) :
    collect norm (lines ++ more) as = collect norm more (collect norm lines as) :=
      List.foldl_append

/-- **What becomes of the first key**, and with which lines the others are
left. -/
theorem collect_cons (lines : List RequestArgument) (a : RequestArgument)
    (as : List RequestArgument) :
    collect norm lines (a :: as) =
      ⟨a.key, (lastValue norm lines a.key).getD a.value⟩ ::
        collect norm (lines.filter (fun f => norm f.key ≠ norm a.key)) as := by
  induction lines generalizing a as with
  | nil => rfl
  | cons f lines ih =>
    have hstep : collect norm (f :: lines) (a :: as)
        = collect norm lines (setFirst norm f.key f.value (a :: as)) := rfl
    rw [hstep, setFirst, lastValue_cons]
    by_cases h : norm a.key = norm f.key
    · rw [if_pos h, ih, if_pos h.symm, List.filter_cons_of_neg (by simpa using h.symm)]
      dsimp only
      cases lastValue norm lines a.key <;> rfl
    · rw [if_neg h, ih, if_neg (Ne.symm h), Option.or_none,
        List.filter_cons_of_pos (by simpa using Ne.symm h)]
      rfl

/-- **What a key has in the end**: the value of the last line with its name,
or what it had. -/
theorem find?_collect (lines as : List RequestArgument) (name : WString) :
    ((collect norm lines as).find? (fun a => norm a.key = norm name)).map
    RequestArgument.value =
      ((as.find? (fun a => norm a.key = norm name)).map RequestArgument.value).map
        (fun old => (lastValue norm lines name).getD old) := by
  induction as generalizing lines with
  | nil => rw [collect_nil]; rfl
  | cons a as ih =>
    rw [collect_cons]
    by_cases h : norm a.key = norm name
    · simp [h, lastValue_congr h]
    · simp only [List.find?_cons, h, decide_false]
      rw [ih, lastValue_filter (Ne.symm h)]

/-- **When two collections agree**: the lines have the same names one by one,
and for every key the last of them the same value. -/
theorem collect_eq_iff {lines lines' : List RequestArgument}
    (hnames : lines.map RequestArgument.key = lines'.map RequestArgument.key)
    (as : List RequestArgument) :
    collect norm lines as = collect norm lines' as ↔
      ∀ a ∈ as, lastValue norm lines a.key = lastValue norm lines' a.key := by
  have hsome : ∀ name, (lastValue norm lines name).isSome =
      (lastValue norm lines' name).isSome := by
    intro name
    rw [Bool.eq_iff_iff, lastValue_isSome, lastValue_isSome]
    have hmem : ∀ ls : List RequestArgument, (∃ f ∈ ls, norm f.key = norm name) ↔
        ∃ k ∈ ls.map RequestArgument.key, norm k = norm name := by simp
    rw [hmem, hmem, hnames]
  induction as generalizing lines lines' with
  | nil => simp
  | cons a as ih =>
    have hfilter : (lines.filter (fun f => norm f.key ≠ norm a.key)).map RequestArgument.key
        = (lines'.filter (fun f => norm f.key ≠ norm a.key)).map RequestArgument.key := by
      have hkeys : ∀ ls : List RequestArgument,
          (ls.filter (fun f => norm f.key ≠ norm a.key)).map RequestArgument.key
            = (ls.map RequestArgument.key).filter (fun k => norm k ≠ norm a.key) := fun ls => by
        rw [List.filter_map]
        rfl
      rw [hkeys, hkeys, hnames]
    have hsome' : ∀ name,
        (lastValue norm (lines.filter (fun f => norm f.key ≠ norm a.key)) name).isSome =
          (lastValue norm (lines'.filter (fun f => norm f.key ≠ norm a.key)) name).isSome := by
      intro name
      by_cases h : norm name = norm a.key
      · rw [lastValue_filter_self h, lastValue_filter_self h]
      · rw [lastValue_filter h, lastValue_filter h, hsome]
    have hhead : (lastValue norm lines a.key).getD a.value =
      (lastValue norm lines' a.key).getD a.value ↔
        lastValue norm lines a.key = lastValue norm lines' a.key := by
      have hsome_a := hsome a.key
      generalize lastValue norm lines a.key = v at hsome_a
      generalize lastValue norm lines' a.key = v' at hsome_a
      cases v <;> cases v' <;> simp_all
    have hrest := ih hfilter hsome'
    rw [collect_cons, collect_cons, List.cons.injEq, RequestArgument.mk.injEq,
      List.forall_mem_cons, hhead]
    refine ⟨fun ⟨h, htail⟩ => ⟨h.2, fun b hb => ?_⟩,
      fun ⟨h, htail⟩ => ⟨⟨rfl, h⟩, hrest.mpr fun b hb => ?_⟩⟩
    · by_cases heq : norm b.key = norm a.key
      · rw [lastValue_congr heq, lastValue_congr heq, h.2]
      · have hb' := hrest.mp htail b hb
        rwa [lastValue_filter heq, lastValue_filter heq] at hb'
    · by_cases heq : norm b.key = norm a.key
      · rw [lastValue_filter_self heq, lastValue_filter_self heq]
      · rw [lastValue_filter heq, lastValue_filter heq]
        exact htail b hb

end Collected
