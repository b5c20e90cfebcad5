import Esp31b.Block
import Esp31b.Increments
import Mathlib.Data.List.Induction

/-!
# The steps of a PWM period

`prep_pwm_steps` collects the values of the pins in use in an array, adds the
range, sorts the array in place, drops what is there twice, and goes over it
from the end to put the lengths of the steps in the place of their ends. An
array here is as much of it as has been filled, so an access to what has not
been, or to a place behind the 32nd, has no result.

What is published is then the increments of the values in increasing order, and
for each value but the last the pins that have it (`Pwm.nextSteps_eq`).
-/

/-- The variables of the PWM. -/
structure Pwm where
  mask : BitVec 32
  values : Fin 32 → ℕ
  freq : ℕ
  range : ℕ
  multiplier : ℕ
  steps : List ℕ
  stepsLen : ℕ
  stepsMask : List (BitVec 32)

namespace Pwm

/-! ## The source -/

/-- `pwm_mask & (1 << i)`. -/
def uses (s : Pwm) (i : Fin 32) : Bool := s.mask.getLsbD i

/-- The inner loop of `pwm_sort_array`: what is larger moves up. -/
def shift (tmp : ℕ) : ℕ → List ℕ → Option (List ℕ)
  | 0, a => Block.set a 0 tmp
  | j + 1, a => do
    let x ← a[j]?
    if tmp < x then
      let a ← Block.set a (j + 1) x
      shift tmp j a
    else Block.set a (j + 1) tmp

/-- The outer loop. -/
def sortFrom : ℕ → ℕ → List ℕ → Option (List ℕ)
  | 0, _, a => some a
  | turns + 1, i, a => do
    let tmp ← a[i]?
    let a ← shift tmp i a
    sortFrom turns (i + 1) a

/-- The loop that drops what is there twice. -/
def distinctFrom : ℕ → ℕ → ℕ → List ℕ → Option (ℕ × List ℕ)
  | 0, _, bl, a => some (bl, a)
  | turns + 1, i, bl, a => do
    let x ← a[i]?
    let y ← a[i - 1]?
    if x ≠ y then
      let a ← Block.set a bl x
      distinctFrom turns (i + 1) (bl + 1) a
    else distinctFrom turns (i + 1) bl a

/-- `pwm_sort_array`. -/
def sortArray (a : List ℕ) (al : ℕ) : Option (ℕ × List ℕ) := do
  let a ← sortFrom (al - 1) 1 a
  distinctFrom (al - 1) 1 1 a

/-- `pwm_get_mask`. -/
def getMask (s : Pwm) (value : ℕ) : BitVec 32 :=
  (List.finRange 32).foldl
    (fun mask i => if s.uses i ∧ s.values i = value then mask ||| 1#32 <<< i.val else mask) 0#32

/-- The next entry of an array of 32. -/
def push {α : Type} (a : List α) (x : α) : Option (List α) :=
  if a.length < 32 then some (a ++ [x]) else none

/-- The loop that collects the values. -/
def collect (s : Pwm) : Option (List ℕ) :=
  (List.finRange 32).foldlM
    (fun a i => if s.uses i ∧ s.values i ≠ 0 then push a (s.values i) else some a) []

/-- The loop over the masks. -/
def getMasks (s : Pwm) (a : List ℕ) (len : ℕ) : Option (List (BitVec 32)) :=
  (List.range len).foldlM (fun masks i => do
    let value ← a[i]?
    push masks (s.getMask value)) []

/-- The loop from the end that leaves the lengths. -/
def subtractFrom : ℕ → List ℕ → Option (List ℕ)
  | 0, a => some a
  | i + 1, a => do
    let x ← a[i + 1]?
    let y ← a[i]?
    let a ← Block.set a (i + 1) ((x + 2 ^ 32 - y) % 2 ^ 32)
    subtractFrom i a

/-- `prep_pwm_steps` up to the multiplier. -/
def nextSteps (s : Pwm) : Option Pwm := do
  let a ← s.collect
  let a ← push a s.range
  let (bl, a) ← sortArray a a.length
  let len := bl - 1
  let masks ← s.getMasks a len
  let a ← subtractFrom len a
  let a ← Block.read a 0 (len + 1)
  let steps ← Block.write s.steps 0 a
  let masks ← Block.read masks 0 len
  let stepsMask ← Block.write s.stepsMask 0 masks
  return { s with stepsLen := len, steps := steps, stepsMask := stepsMask }

/-! ## Sorting in place -/

variable {p d rest : List ℕ} {tmp x y : ℕ}

/-- **An entry is put** where it belongs in front of it. -/
theorem shift_eq (hp : p.Pairwise (· ≤ ·)) (tmp x : ℕ) (rest : List ℕ) :
    ∃ q, shift tmp p.length (p ++ x :: rest) = some (q ++ rest) ∧ q.Perm (tmp :: p) ∧
      q.Pairwise (· ≤ ·) := by
  induction p using List.reverseRecOn generalizing x rest with
  | nil => exact ⟨[tmp], rfl, List.Perm.refl _, List.pairwise_singleton _ _⟩
  | append_singleton p y ih =>
    obtain ⟨hfront, -, hle⟩ := List.pairwise_append.mp hp
    have hget := Block.getElem?_append p (x :: rest) y
    have hset := Block.set_append (p ++ [y]) rest x
    rw [List.length_append, List.length_singleton] at hset ⊢
    rw [shift, List.append_assoc, List.singleton_append, hget, Option.bind_eq_bind,
      Option.bind_some]
    rw [List.append_assoc, List.singleton_append] at hset
    split
    · rename_i hlt
      obtain ⟨q, hq, hperm, hsorted⟩ := ih hfront y (y :: rest)
      rw [hset, Option.bind_eq_bind, Option.bind_some, List.append_assoc,
        List.singleton_append, hq]
      refine ⟨q ++ [y], by rw [List.append_assoc]; rfl, hperm.append_right [y],
        List.pairwise_append.mpr ⟨hsorted, ?_, ?_⟩⟩
      · exact List.pairwise_singleton _ _
      · intro z hz w hw
        obtain rfl := List.mem_singleton.mp hw
        rcases List.mem_cons.mp (hperm.subset hz) with rfl | hz
        · exact hlt.le
        · exact hle z hz w List.mem_cons_self
    · rename_i hge
      rw [hset]
      refine ⟨p ++ [y] ++ [tmp], by rw [List.append_assoc (p ++ [y])]; rfl,
        List.perm_append_singleton tmp _,
        List.pairwise_append.mpr ⟨hp, List.pairwise_singleton _ _, ?_⟩⟩
      intro z hz w hw
      obtain rfl := List.mem_singleton.mp hw
      rcases List.mem_append.mp hz with hz | hz
      · exact (hle z hz y List.mem_cons_self).trans (by omega)
      · obtain rfl := List.mem_singleton.mp hz
        omega

/-- **The array is sorted.** -/
theorem sortFrom_eq (hp : p.Pairwise (· ≤ ·)) (rest : List ℕ) :
    ∃ q, sortFrom rest.length p.length (p ++ rest) = some q ∧ q.Perm (p ++ rest) ∧
      q.Pairwise (· ≤ ·) := by
  induction rest generalizing p with
  | nil => exact ⟨p, by rw [List.append_nil]; rfl, by rw [List.append_nil], hp⟩
  | cons x rest ih =>
    obtain ⟨q, hq, hperm, hsorted⟩ := shift_eq hp x x rest
    obtain ⟨r, hr, hperm', hsorted'⟩ := ih hsorted
    rw [List.length_cons, sortFrom, Block.getElem?_append, Option.bind_eq_bind,
      Option.bind_some, hq,
      Option.bind_eq_bind, Option.bind_some]
    rw [hperm.length_eq] at hr
    refine ⟨r, hr, hperm'.trans ((hperm.append_right rest).trans ?_), hsorted'⟩
    exact List.perm_middle.symm

/-- **Each value once**, in front of the array. The values up to `i` are those in
front of `bl`, and the one last looked at is the largest of them. -/
theorem distinctFrom_eq {a : List ℕ} {i bl : ℕ} (hrest : a.drop i = rest)
    (hy : a[i - 1]? = some y) (hi : 1 ≤ i)
    (hbl : bl ≤ i) (hia : i ≤ a.length) (hlast : y ∈ a.take bl) (hmax : ∀ z ∈ a.take bl, z ≤ y)
    (hd : (a.take bl).Pairwise (· < ·)) (hsorted : (y :: rest).Pairwise (· ≤ ·)) :
    ∃ bl' a', distinctFrom rest.length i bl a = some (bl', a') ∧ bl' ≤ a.length ∧
      a'.length = a.length ∧
      (a'.take bl').Pairwise (· < ·) ∧ ∀ z, z ∈ a'.take bl' ↔ z ∈ a.take bl ∨ z ∈ rest := by
  induction rest generalizing a i bl y with
  | nil => exact ⟨bl, a, rfl, by omega, rfl, hd, fun z => by simp⟩
  | cons x rest ih =>
    have hlt : i < a.length := by
      by_contra hge
      rw [List.drop_eq_nil_of_le (by omega)] at hrest
      cases hrest
    have hx : a[i]? = some x := by
      have hhead := congrArg (fun l : List ℕ => l[0]?) hrest
      simpa using hhead
    have hrest' : a.drop (i + 1) = rest := by
      rw [← List.drop_drop, hrest]
      rfl
    obtain ⟨hle, htail⟩ := List.pairwise_cons.mp hsorted
    have hyx := hle x List.mem_cons_self
    rw [List.length_cons, distinctFrom, hx, hy]
    simp only [Option.bind_eq_bind, Option.bind_some]
    split
    · rename_i hne
      have hset : Block.set a bl x = some (a.set bl x) := if_pos (by omega)
      have htake := Block.take_of_set hset
      have hsame : (a.set bl x)[i]? = some x := by
        rw [List.getElem?_set]
        split
        · rw [if_pos (by omega)]
        · exact hx
      have hlt' : y < x := lt_of_le_of_ne hyx fun h => hne h.symm
      obtain ⟨bl', a', ha', hbl', hlen, hd', hmem⟩ := ih (a := a.set bl x) (i := i + 1) (y := x)
        (by rw [List.drop_set_of_lt (by omega), hrest']) hsame (by omega)
          (by omega : bl + 1 ≤ i + 1) (by rw [List.length_set]; omega)
        (by rw [htake]; exact List.mem_append_right _ List.mem_cons_self)
        (by
          rw [htake]
          intro z hz
          rcases List.mem_append.mp hz with hz | hz
          · exact (hmax z hz).trans hyx
          · exact (List.mem_singleton.mp hz).le)
        (by
          rw [htake]
          refine List.pairwise_append.mpr ⟨hd, List.pairwise_singleton _ _, fun z hz w hw => ?_⟩
          obtain rfl := List.mem_singleton.mp hw
          exact (hmax z hz).trans_lt hlt')
        htail
      rw [hset, Option.bind_some]
      rw [List.length_set] at hbl' hlen
      refine ⟨bl', a', ha', hbl', hlen, hd', fun z => (hmem z).trans ?_⟩
      rw [htake, List.mem_append, List.mem_singleton, List.mem_cons, or_assoc]
    · rename_i heq
      obtain rfl : x = y := by simpa using heq
      obtain ⟨bl', a', ha', hbl', hlen, hd', hmem⟩ := ih (a := a) (i := i + 1) (y := x)
        hrest' hx (by omega) (by omega) (by omega) hlast hmax hd htail
      refine ⟨bl', a', ha', hbl', hlen, hd', fun z => (hmem z).trans ?_⟩
      rw [List.mem_cons]
      exact ⟨fun h => h.imp_right Or.inr, fun h => by rcases h with h | rfl | h <;> simp [*]⟩

/-- **`pwm_sort_array`** leaves each value once, in increasing order. -/
theorem sortArray_eq {a : List ℕ} (ha : a ≠ []) :
    ∃ rest, sortArray a a.length = some (a.sortedDistinct.length, a.sortedDistinct ++ rest) ∧
      (a.sortedDistinct ++ rest).length = a.length := by
  obtain ⟨x, l, rfl⟩ := List.exists_cons_of_ne_nil ha
  obtain ⟨q, hq, hperm, hsorted⟩ := sortFrom_eq (p := [x]) (List.pairwise_singleton _ _) l
  cases q with
  | nil => cases hperm.length_eq
  | cons y q =>
    have hlength : l.length = q.length := (Nat.succ.inj hperm.length_eq).symm
    have hrest : (y :: q).drop 1 = q := rfl
    obtain ⟨bl, a', ha', hbl, hlen, hd, hmem⟩ := distinctFrom_eq (a := y :: q) (i := 1) (y := y)
      hrest rfl le_rfl (le_refl 1) (by rw [List.length_cons]; omega) List.mem_cons_self
      (fun z hz => (List.mem_singleton.mp hz).le) (List.pairwise_singleton _ _) hsorted
    have heq : a'.take bl = (x :: l).sortedDistinct := by
      refine hd.eq_of_mem_iff (List.pairwise_sortedDistinct _) fun z => ?_
      rw [hmem, List.mem_sortedDistinct]
      refine Iff.trans ?_ hperm.mem_iff
      rw [List.mem_cons]
      exact or_congr_left List.mem_singleton
    refine ⟨a'.drop bl, ?_, ?_⟩
    · unfold sortArray
      rw [List.length_cons, Nat.add_sub_cancel]
      rw [List.length_singleton, List.singleton_append] at hq
      rw [hq, Option.bind_eq_bind, Option.bind_some, hlength, ha', ← heq, List.take_append_drop,
        List.length_take,
        Nat.min_eq_left (hbl.trans_eq hlen.symm)]
    · rw [← heq, List.take_append_drop, hlen, List.length_cons, List.length_cons, hlength]

/-- **An array is sorted and freed of repetitions in place.** For every array
with at least one entry `pwm_sort_array` stays inside of it and returns how many
of the entries in front are, in strictly increasing order, the values that were
in the array. -/
theorem sortArray_sorts {a : List ℕ} (ha : 1 ≤ a.length) :
    ∃ bl a', sortArray a a.length = some (bl, a') ∧ a'.length = a.length ∧
      1 ≤ bl ∧ bl ≤ a.length ∧ (a'.take bl).Pairwise (· < ·) ∧
      ∀ z, z ∈ a'.take bl ↔ z ∈ a := by
  obtain ⟨rest, hsort, hlength⟩ := sortArray_eq (List.ne_nil_of_length_pos ha)
  have hfirst : a[0] ∈ a.sortedDistinct := List.mem_sortedDistinct.mpr (List.getElem_mem ha)
  refine ⟨_, _, hsort, hlength, List.length_pos_of_mem hfirst, a.length_sortedDistinct_le, ?_,
    fun z => ?_⟩
  · rw [List.take_left]
    exact a.pairwise_sortedDistinct
  · rw [List.take_left]
    exact List.mem_sortedDistinct

theorem sortArray_sorts_repeated :
    ∃ bl a', sortArray [7, 3, 7, 5, 3] [7, 3, 7, 5, 3].length = some (bl, a') ∧
      a'.length = 5 ∧ 1 ≤ bl ∧ bl ≤ 5 ∧ (a'.take bl).Pairwise (· < ·) ∧
      ∀ z, z ∈ a'.take bl ↔ z ∈ [7, 3, 7, 5, 3] :=
  sortArray_sorts (by decide)

/-! ## The other loops -/

/-- The values that are not 0, of the pins in use. -/
def inUse (s : Pwm) : List ℕ :=
  ((List.finRange 32).filter fun i => s.uses i ∧ s.values i ≠ 0).map s.values

theorem push_eq {α : Type} {a : List α} (h : a.length < 32) (x : α) :
    push a x = some (a ++ [x]) :=
  if_pos h

/-- **The loop over pins** that leave room for them. -/
theorem foldlM_collect (s : Pwm) (l : List (Fin 32)) (a : List ℕ)
    (hroom : a.length + l.length ≤ 32) :
    l.foldlM (fun a i => if s.uses i ∧ s.values i ≠ 0 then push a (s.values i) else some a) a =
      some (a ++ (l.filter fun i => s.uses i ∧ s.values i ≠ 0).map s.values) := by
  induction l generalizing a with
  | nil => exact congrArg some (List.append_nil a).symm
  | cons i l ih =>
    rw [List.length_cons] at hroom
    rw [List.foldlM_cons]
    by_cases hi : s.uses i ∧ s.values i ≠ 0
    · rw [if_pos hi, push_eq (by omega), Option.bind_eq_bind, Option.bind_some,
        ih _ (by rw [List.length_append, List.length_singleton]; omega),
        List.filter_cons_of_pos (by simpa using hi), List.map_cons, List.append_assoc,
          List.singleton_append]
    · rw [if_neg hi, Option.bind_eq_bind, Option.bind_some, ih _ (by omega),
        List.filter_cons_of_neg (by simpa using hi)]

theorem collect_eq (s : Pwm) : s.collect = some s.inUse :=
  s.foldlM_collect _ [] (by rw [List.length_nil, List.length_finRange])

theorem getMasks_eq (s : Pwm) {len : ℕ} (d rest : List ℕ) (hlen : len ≤ d.length)
    (hroom : len ≤ 32) :
    s.getMasks (d ++ rest) len = some ((d.take len).map s.getMask) := by
  unfold getMasks
  induction len with
  | zero => rfl
  | succ len ih =>
    have hget : (d ++ rest)[len]? = some d[len] := by
      rw [List.getElem?_append_left (by omega), List.getElem?_eq_getElem (by omega)]
    rw [List.range_succ, List.foldlM_append, ih (by omega) (by omega), Option.bind_eq_bind,
      Option.bind_some,
      List.foldlM_cons, hget, Option.bind_eq_bind, Option.bind_eq_bind,
      Option.bind_some, push_eq
        (by rw [List.length_map, List.length_take]; omega), Option.bind_some, List.foldlM_nil,
          List.take_succ_eq_append_getElem,
      List.map_append]
    rfl

/-- **The lengths of the steps** come in the place of their ends. -/
theorem subtractFrom_eq {n : ℕ} (hd : d.Pairwise (· ≤ ·)) (hbound : ∀ z ∈ d, z < 2 ^ 32)
    (hn : d.length = n + 1)
    (rest : List ℕ) : subtractFrom n (d ++ rest) = some (List.increments 0 d ++ rest) := by
  induction n generalizing d rest with
  | zero =>
    obtain ⟨x, rfl⟩ := List.length_eq_one_iff.mp hn
    rfl
  | succ n ih =>
    obtain ⟨d, x, rfl⟩ : ∃ d' x, d = d' ++ [x] :=
      ⟨_, _, (List.dropLast_append_getLast (List.ne_nil_of_length_pos (by omega))).symm⟩
    rw [List.length_append, List.length_singleton] at hn
    obtain ⟨d, y, rfl⟩ : ∃ d' y, d = d' ++ [y] :=
      ⟨_, _, (List.dropLast_append_getLast (List.ne_nil_of_length_pos (by omega))).symm⟩
    rw [List.length_append, List.length_singleton] at hn
    obtain ⟨hfront, -, hle⟩ := List.pairwise_append.mp hd
    have hyx : y ≤ x := hle y (List.mem_append_right _ List.mem_cons_self) x List.mem_cons_self
    have hx := hbound x (List.mem_append_right _ List.mem_cons_self)
    have hgetx := Block.getElem?_append (d ++ [y]) rest x
    have hgety := Block.getElem?_append d (x :: rest) y
    have hset := Block.set_append (d ++ [y]) rest x ((x + 2 ^ 32 - y) % 2 ^ 32)
    have hsub : (x + 2 ^ 32 - y) % 2 ^ 32 = x - y := by omega
    rw [List.length_append, List.length_singleton] at hgetx hset
    rw [hsub] at hset
    have hlist : d ++ [y] ++ [x] ++ rest = d ++ [y] ++ x :: rest := by
      rw [List.append_assoc (d ++ [y])]; rfl
    have hlist' : d ++ [y] ++ x :: rest = d ++ y :: x :: rest := by rw [List.append_assoc]; rfl
    rw [hlist'] at hgetx hset
    have hdn : d.length = n := by omega
    rw [hdn] at hgetx hgety hset
    rw [hlist, hlist', subtractFrom, hgetx, hgety]
    simp only [Option.bind_eq_bind, Option.bind_some]
    rw [hsub, hset, Option.bind_some,
      ih hfront (fun z hz => hbound z (List.mem_append_left _ hz))
      (by rw [List.length_append, List.length_singleton, hdn])]
    rw [List.append_assoc d, List.singleton_append, List.increments_append, List.append_assoc]
    rfl

/-! ## What is published -/

/-- Where the steps end. -/
def ends (s : Pwm) : List ℕ := (s.inUse ++ [s.range]).sortedDistinct

/-- **The steps are published**: the entries behind them stay as they were. -/
def publish (s : Pwm) : Pwm :=
  { s with
    stepsLen := s.ends.length - 1
    steps := List.increments 0 s.ends ++ s.steps.drop s.ends.length
    stepsMask := s.ends.dropLast.map s.getMask ++ s.stepsMask.drop (s.ends.length - 1) }

theorem ends_ne_nil (s : Pwm) : s.ends ≠ [] := by
  have hmem : s.range ∈ s.ends := List.mem_sortedDistinct.mpr
    (List.mem_append_right _ List.mem_cons_self)
  exact List.ne_nil_of_mem hmem

theorem length_ends_le (s : Pwm) : s.ends.length ≤ s.inUse.length + 1 :=
  (List.length_sortedDistinct_le _).trans_eq List.length_append

/-- The arrays keep their size. -/
theorem length_steps_publish {s : Pwm} (hroom : s.inUse.length < 32)
    (hsteps : s.steps.length = 32) :
    s.publish.steps.length = 32 := by
  have hle := s.length_ends_le
  show (List.increments 0 s.ends ++ s.steps.drop s.ends.length).length = 32
  rw [List.length_append, List.length_increments, List.length_drop, hsteps]
  omega

theorem length_stepsMask_publish {s : Pwm} (hroom : s.inUse.length < 32)
    (hmasks : s.stepsMask.length = 32) :
    s.publish.stepsMask.length = 32 := by
  have hle := s.length_ends_le
  show (s.ends.dropLast.map s.getMask ++ s.stepsMask.drop (s.ends.length - 1)).length = 32
  rw [List.length_append, List.length_map, List.length_dropLast, List.length_drop, hmasks]
  omega

/-- **`prep_pwm_steps`**, with at most 31 pins that have a value. -/
theorem nextSteps_eq {s : Pwm} (hfits : s.inUse.length < 32) (hbound : ∀ z ∈ s.ends, z < 2 ^ 32)
    (hsteps : s.steps.length = 32)
    (hmasks : s.stepsMask.length = 32) : s.nextSteps = some s.publish := by
  obtain ⟨n, hn⟩ : ∃ n, s.ends.length = n + 1 :=
    Nat.exists_eq_succ_of_ne_zero fun h => s.ends_ne_nil (List.eq_nil_of_length_eq_zero h)
  have hle := s.length_ends_le
  obtain ⟨rest, hsort, -⟩ := sortArray_eq (a := s.inUse ++ [s.range]) (by simp)
  have hincrements := List.length_increments 0 s.ends
  have hread :=
    Block.read_append [] rest (d := List.increments 0 s.ends) (n := n + 1) (by omega)
  have hmapped : (s.ends.take n).map s.getMask = s.ends.dropLast.map s.getMask := by
    rw [List.dropLast_eq_take, hn, Nat.add_sub_cancel]
  have hlength : (s.ends.dropLast.map s.getMask).length = n := by
    rw [List.length_map, List.length_dropLast, hn, Nat.add_sub_cancel]
  rw [List.nil_append, List.length_nil, List.take_of_length_le (by omega)] at hread
  have hwrite :=
    Block.write_eq (b := s.steps) (p := 0) (d := List.increments 0 s.ends) (by omega)
  have hreadMasks :=
    Block.read_eq (b := s.ends.dropLast.map s.getMask) (p := 0) (n := n) (by omega)
  have hwriteMasks := Block.write_eq (b := s.stepsMask) (p := 0)
    (d := s.ends.dropLast.map s.getMask) (by omega)
  rw [List.drop_zero, List.take_of_length_le (by omega)] at hreadMasks
  unfold nextSteps publish
  rw [collect_eq, Option.bind_eq_bind, Option.bind_some, push_eq hfits, Option.bind_eq_bind,
    Option.bind_some, hsort,
    Option.bind_eq_bind, Option.bind_some]
  show (do
      let masks ← s.getMasks (s.ends ++ rest) (s.ends.length - 1)
      let a ← subtractFrom (s.ends.length - 1) (s.ends ++ rest)
      let a ← Block.read a 0 (s.ends.length - 1 + 1)
      let steps ← Block.write s.steps 0 a
      let masks ← Block.read masks 0 (s.ends.length - 1)
      let stepsMask ← Block.write s.stepsMask 0 masks
      return { s with stepsLen := s.ends.length - 1, steps := steps, stepsMask := stepsMask }) =
        _
  rw [hn, Nat.add_sub_cancel, getMasks_eq s _ _ (by omega) (by omega), hmapped,
    subtractFrom_eq (d := s.ends) ((List.pairwise_sortedDistinct _).imp le_of_lt) hbound hn]
  simp only [Option.bind_eq_bind, Option.bind_some, hread, hwrite, hreadMasks, hwriteMasks]
  rw [List.take_zero, List.take_zero, List.nil_append, List.nil_append,
    hincrements, hlength, hn, Nat.zero_add, Nat.zero_add]
  rfl

/-- One bit. -/
theorem getLsbD_bit (i j : Fin 32) : (1#32 <<< j.val).getLsbD i = decide (i = j) := by
  rw [BitVec.getLsbD_shiftLeft, BitVec.getLsbD_one]
  rcases Nat.lt_trichotomy i.val j.val with hlt | heq | hgt
  · rw [decide_eq_false fun h : i = j => hlt.ne (congrArg Fin.val h)]
    simp [hlt]
  · rw [decide_eq_true (Fin.ext heq), heq]
    simp
  · rw [decide_eq_false fun h : i = j => hgt.ne' (congrArg Fin.val h)]
    simp
    omega

/-- **A mask is put together** from the bits of some pins. -/
theorem getLsbD_foldl (f : Fin 32 → Prop) [DecidablePred f] (l : List (Fin 32))
    (mask : BitVec 32) (i : Fin 32) :
    (l.foldl (fun mask j => if f j then mask ||| 1#32 <<< j.val else mask) mask).getLsbD i =
      (mask.getLsbD i || decide (i ∈ l ∧ f i)) := by
  induction l generalizing mask with
  | nil => simp
  | cons j l ih =>
    rw [List.foldl_cons, ih]
    by_cases hij : i = j
    · subst hij
      by_cases hi : f i
      · rw [if_pos hi, BitVec.getLsbD_or, getLsbD_bit]
        simp [hi]
      · rw [if_neg hi]
        simp [hi]
    · split
      · rw [BitVec.getLsbD_or, getLsbD_bit, decide_eq_false hij, Bool.or_false]
        simp [hij]
      · simp [hij]

/-- **The pins that have a value.** -/
theorem getLsbD_getMask (s : Pwm) (value : ℕ) (i : Fin 32) :
    (s.getMask value).getLsbD i = (s.uses i && decide (s.values i = value)) := by
  unfold getMask
  rw [getLsbD_foldl]
  simp

/-- A pin comes into use. -/
theorem getLsbD_put (mask : BitVec 32) (pin i : Fin 32) :
    (mask ||| 1#32 <<< pin.val).getLsbD i = (mask.getLsbD i || decide (i = pin)) := by
  rw [BitVec.getLsbD_or, getLsbD_bit]

/-- A pin is not used any longer. -/
theorem getLsbD_clear (mask : BitVec 32) (pin i : Fin 32) :
    (mask &&& ~~~(1#32 <<< pin.val)).getLsbD i = (mask.getLsbD i && decide (i ≠ pin)) := by
  rw [BitVec.getLsbD_and, BitVec.getLsbD_not, getLsbD_bit, decide_eq_true i.isLt,
    Bool.true_and, decide_not]

end Pwm
