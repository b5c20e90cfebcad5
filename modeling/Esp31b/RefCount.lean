import Mathlib.Data.Int.Notation
import Mathlib.Logic.Function.Basic
import Mathlib.Data.List.Nodup
import Mathlib.Data.List.Count

/-!
# Counted references

Objects come and go, and each has a pointer that is null or refers to a
context. The context keeps the number of its references in a counter that the
code counts by hand, and deletes itself when an `unref` takes the counter to
zero. A `RefPool` is all of them at one moment, with the contexts that were
made and not yet given to any object, and a flag for the call of a method on
a context that is gone.

`RefPool.Sound p` says that all counters are right, where `p` is one more
reference that the running code holds between two of its statements. Every
primitive moves a reference between the objects, the code and the counter:
`ref` gives one to the code and `unref` takes it, `point` moves it into an
object or out of it, `add` and `remove` move what an object has. The order in
which an operation does these things is then the order in which its lemmas
are applied.
-/

/-- **The objects and their contexts.** `refcnt` is `none` for a context that
is not there: deleted, or never made. -/
structure RefPool (ι : Type*) where
  objects : List ι
  ptr : ι → Option ℕ
  refcnt : ℕ → Option ℤ
  fresh : ℕ
  /-- Made, and not given to an object yet. -/
  idle : List ℕ
  fault : Bool

namespace RefPool

variable {ι : Type*} (s : RefPool ι)

/-! ## What the code does -/

/-- A method of a context. -/
def call (k : ℕ) : RefPool ι :=
  match s.refcnt k with
  | none => { s with fault := true }
  | some _ => s

/-- A method that sets the counter; `none` deletes the context. -/
def recount (k : ℕ) (f : ℤ → Option ℤ) : RefPool ι :=
  match s.refcnt k with
  | none => { s with fault := true }
  | some n => { s with refcnt := Function.update s.refcnt k (f n) }

/-- `ref`. -/
def ref (k : ℕ) : RefPool ι := s.recount k (fun n => some (n + 1))

/-- `unref`. -/
def unref (k : ℕ) : RefPool ι := s.recount k (fun n => if n - 1 = 0 then none else some (n - 1))

/-- A method through a pointer that may be null. -/
def callPtr (p : Option ℕ) : RefPool ι := p.elim s s.call

/-- `ref` through a pointer that may be null. -/
def refPtr (p : Option ℕ) : RefPool ι := p.elim s s.ref

/-- `unref` through a pointer that may be null. -/
def unrefPtr (p : Option ℕ) : RefPool ι := p.elim s s.unref

/-- An object is entered into the list of them. -/
def add (i : ι) : RefPool ι := { s with objects := i :: s.objects }

/-- A context is made; its number is the one that was fresh. -/
def create : RefPool ι :=
  { s with refcnt := Function.update s.refcnt s.fresh (some 0), fresh := s.fresh + 1 }

/-- A context waits for its object. -/
def keep (k : ℕ) : RefPool ι := { s with idle := s.idle ++ [k] }

/-- And does not any more. -/
def take (k : ℕ) : RefPool ι := { s with idle := s.idle.erase k }

section
variable [DecidableEq ι]

/-- An object's pointer is set. -/
def point (i : ι) (p : Option ℕ) : RefPool ι := { s with ptr := Function.update s.ptr i p }

/-- An object leaves the list. -/
def remove (i : ι) : RefPool ι := { s with objects := s.objects.erase i }

/-- An object gives up its reference, if it has one. -/
def release (i : ι) : RefPool ι :=
  match s.ptr i with
  | none => s
  | some k => (s.unref k).point i none

/-- An object is given a new context. -/
def attach (i : ι) : RefPool ι := (s.create.point i (some s.fresh)).ref s.fresh

/-- An object's context is called once more and given up. -/
def dismiss (i : ι) : RefPool ι :=
  match s.ptr i with
  | none => s
  | some k => ((s.call k).unref k).point i none

/-- So is that of every object, from the last one entered to the first. -/
def dismissAll : RefPool ι := s.objects.foldl (fun t i => t.dismiss i) s

/-- And of every object that does not share the context of one of them. -/
def dismissAllExcept (ex : ι) : RefPool ι :=
  s.objects.foldl (fun t i => if t.ptr i = t.ptr ex then t else t.dismiss i) s

end

/-! ## Counting -/

/-- **How many objects refer to a context.** -/
def holders (k : ℕ) : ℕ := s.objects.countP (fun i => s.ptr i = some k)

/-- How many of the others do. -/
def others [DecidableEq ι] (i : ι) (k : ℕ) : ℕ :=
  (s.objects.erase i).countP (fun j => s.ptr j = some k)

/-- What a pointer counts for. -/
def loose (p : Option ℕ) (k : ℕ) : ℕ := if p = some k then 1 else 0

@[simp] theorem loose_none (k : ℕ) : loose none k = 0 := rfl

@[simp] theorem loose_self (k : ℕ) : loose (some k) k = 1 := if_pos rfl

theorem loose_of_ne {j k : ℕ} (h : k ≠ j) : loose (some j) k = 0 :=
  if_neg (fun he => h (Option.some.inj he).symm)

/-- **The counter of one context is right**: there are so many references to
it, and it waits for its first if there is none. -/
structure Tally (refcnt : Option ℤ) (refs : ℕ) (made waits : Prop) : Prop where
  counted : ∀ n, refcnt = some n → n = refs
  /-- What is referred to is there. -/
  held : 0 < refs → refcnt ≠ none
  made : refcnt ≠ none → made
  waits : waits ↔ refcnt = some 0

/-- **All counters are right**, with one more reference `p` that no object
has, and no method was called on a deleted context. -/
structure Sound (p : Option ℕ) (s : RefPool ι) : Prop where
  tally : ∀ k, Tally (s.refcnt k) (s.holders k + loose p k) (k < s.fresh) (k ∈ s.idle)
  nodup : s.objects.Nodup
  idle_nodup : s.idle.Nodup
  quiet : s.fault = false

/-- **What the counting is for**: every context that is there counts the
objects that refer to it, and none that is gone was called. -/
def Right (s : RefPool ι) : Prop :=
  (∀ k n, s.refcnt k = some n → n = s.holders k) ∧ s.fault = false

/-- **A step deletes exactly what loses its last reference in it.** -/
def DeletesExactly (s t : RefPool ι) : Prop :=
  ∀ k, (s.refcnt k ≠ none ∧ t.refcnt k = none) ↔ (0 < s.holders k ∧ t.holders k = 0)

/-- A step hands what was waiting to an object, and lets only new contexts
wait. -/
def Hands (s t : RefPool ι) : Prop :=
  (∀ k ∈ s.idle, k ∈ t.idle ∨ 0 < t.holders k) ∧ ∀ k ∈ t.idle, k ∈ s.idle ∨ s.fresh ≤ k

variable {s} {t : RefPool ι} {i j : ι} {k : ℕ} {p q : Option ℕ}

theorem call_frame (s : RefPool ι) (k : ℕ) :
    (s.call k).objects = s.objects ∧ (s.call k).ptr = s.ptr ∧ (s.call k).idle = s.idle := by
  unfold call
  split <;> exact ⟨rfl, rfl, rfl⟩

/-- A counter is all that is changed. -/
theorem recount_frame (s : RefPool ι) (k : ℕ) (f : ℤ → Option ℤ) :
    (s.recount k f).objects = s.objects ∧ (s.recount k f).ptr = s.ptr ∧
      (s.recount k f).fresh = s.fresh ∧ (s.recount k f).idle = s.idle := by
  unfold recount
  split <;> exact ⟨rfl, rfl, rfl, rfl⟩

theorem recount_eq {f : ℤ → Option ℤ} {n : ℤ} (hk : s.refcnt k = some n) :
    s.recount k f = { s with refcnt := Function.update s.refcnt k (f n) } := by
  rw [recount, hk]

theorem holders_congr (hobjects : t.objects = s.objects) (hptr : t.ptr = s.ptr) (k : ℕ) :
    t.holders k = s.holders k := by
  rw [holders, holders, hobjects, hptr]

/-- An object that refers to a context holds it. -/
theorem holders_pos (hi : i ∈ s.objects) (hk : s.ptr i = some k) : 0 < s.holders k :=
  List.countP_pos_iff.mpr ⟨i, hi, decide_eq_true hk⟩

theorem refPtr_frame (s : RefPool ι) (p : Option ℕ) :
    (s.refPtr p).objects = s.objects ∧ (s.refPtr p).ptr = s.ptr ∧ (s.refPtr p).fresh = s.fresh ∧
      (s.refPtr p).idle = s.idle := by
  cases p with
  | none => exact ⟨rfl, rfl, rfl, rfl⟩
  | some k => exact s.recount_frame k _

theorem unrefPtr_frame (s : RefPool ι) (p : Option ℕ) :
    (s.unrefPtr p).objects = s.objects ∧ (s.unrefPtr p).ptr = s.ptr ∧
    (s.unrefPtr p).fresh = s.fresh ∧
      (s.unrefPtr p).idle = s.idle := by
  cases p with
  | none => exact ⟨rfl, rfl, rfl, rfl⟩
  | some k => exact s.recount_frame k _

theorem holders_add : (s.add i).holders k = s.holders k + loose (s.ptr i) k := by
  rw [holders, add, List.countP_cons, loose]
  simp only [decide_eq_true_eq]
  rfl

/-- A state with as many references to each context, wherever they are. -/
theorem Sound.of_holders (h : s.Sound p) (hnodup : t.objects.Nodup)
    (hholders : ∀ k, t.holders k + loose q k = s.holders k + loose p k)
    (hrefcnt : t.refcnt = s.refcnt)
    (hfresh : t.fresh = s.fresh) (hidle : t.idle = s.idle) (hfault : t.fault = s.fault) :
    t.Sound q where
  tally k := by
    rw [hholders, hrefcnt, hfresh, hidle]
    exact h.tally k
  nodup := hnodup
  idle_nodup := hidle ▸ h.idle_nodup
  quiet := hfault.trans h.quiet

/-- The counter of a context that is there. -/
theorem Tally.exists_eq {refcnt : Option ℤ} {refs : ℕ} {made waits : Prop}
    (h : Tally refcnt refs made waits) (hsome : refcnt ≠ none) : refcnt = some (refs : ℤ) := by
  obtain ⟨n, hn⟩ := Option.ne_none_iff_exists'.mp hsome
  rw [hn, h.counted n hn]

/-- A context that is not there has no holder. -/
theorem Sound.holders_eq_zero (h : s.Sound p) (hk : s.refcnt k = none) :
    s.holders k + loose p k = 0 := by
  by_contra hpos
  exact (h.tally k).held (Nat.pos_of_ne_zero hpos) hk

theorem Sound.right (h : s.Sound none) : s.Right :=
  ⟨fun k => (h.tally k).counted, h.quiet⟩

theorem hands_of_eq (h : t.idle = s.idle) : Hands s t :=
  ⟨fun _ hk => Or.inl (h ▸ hk), fun _ hk => Or.inl (h ▸ hk)⟩

/-- **Sound states delete what they should.** -/
theorem Sound.deletesExactly (hs : s.Sound none) (ht : t.Sound none) (h : Hands s t) :
    DeletesExactly s t := by
  obtain ⟨hkept, hmade⟩ := h
  intro k
  have hzero : ∀ {u : RefPool ι}, u.Sound none → u.refcnt k ≠ none → u.holders k = 0 →
      k ∈ u.idle := by
    intro u hu hsome hnone
    rw [(hu.tally k).waits, (hu.tally k).exists_eq hsome, loose_none, hnone]
    rfl
  constructor
  · rintro ⟨hsome, hgone⟩
    have hnone : t.holders k = 0 := ht.holders_eq_zero hgone
    refine ⟨Nat.pos_of_ne_zero (fun hunheld => ?_), hnone⟩
    -- a context that no object held was waiting, and a waiting one is not deleted
    rcases hkept k (hzero hs hsome hunheld) with hidle | hheld
    · rw [(ht.tally k).waits, hgone] at hidle
      cases hidle
    · omega
  · rintro ⟨hheld, hnone⟩
    have hsome := (hs.tally k).held hheld
    refine ⟨hsome, ?_⟩
    by_contra hstays
    -- it would wait, but a context that was held is neither new nor waiting
    rcases hmade k (hzero ht hstays hnone) with hidle | hfresh
    · have hcount := (hs.tally k).counted 0 ((hs.tally k).waits.mp hidle)
      rw [loose_none] at hcount
      omega
    · exact Nat.lt_irrefl _ (Nat.lt_of_lt_of_le ((hs.tally k).made hsome) hfresh)

/-- A context that loses an object and not a reference. -/
theorem not_right_of_lost (h : s.Sound none) (hk : s.refcnt k ≠ none)
    (hrefcnt : t.refcnt k = s.refcnt k)
    (hlost : t.holders k < s.holders k) : ¬ t.Right := by
  intro hright
  have hcount := hright.1 k _ (hrefcnt.trans ((h.tally k).exists_eq hk))
  rw [loose_none] at hcount
  omega

/-- A `ref` of what was deleted. -/
theorem not_right_of_fault (hk : s.refcnt k = none) : ¬ (s.ref k).Right := by
  intro hright
  have hfault := hright.2
  rw [ref, recount, hk] at hfault
  cases hfault

/-- A new object takes the reference of the code. -/
theorem Sound.add (h : s.Sound (s.ptr i)) (hi : i ∉ s.objects) : (s.add i).Sound none := by
  refine h.of_holders (List.nodup_cons.mpr ⟨hi, h.nodup⟩) (fun k => ?_) rfl rfl rfl rfl
  rw [holders_add, loose_none, Nat.add_zero]

theorem tally_some (refs : ℕ) {made : Prop} (hmade : made) :
    Tally (some (refs : ℤ)) refs made (refs = 0) where
  counted _ hn := (Option.some.inj hn).symm
  held _ := Option.some_ne_none _
  made _ := hmade
  waits := by rw [Option.some.injEq, Int.natCast_eq_zero]

theorem tally_none {made : Prop} : Tally none 0 made False where
  counted _ hn := by cases hn
  held h := absurd h (Nat.lt_irrefl 0)
  made h := absurd rfl h
  waits := iff_of_false id (fun h => by cases h)

/-- **`ref` gives the code a reference**; a context that was waiting no longer
is. -/
theorem Sound.ref (h : s.Sound none) (hk : s.refcnt k ≠ none) :
    ((s.ref k).take k).Sound (some k) := by
  have hsome := (h.tally k).exists_eq hk
  have heq : (s.ref k).take k = { s with
      refcnt := Function.update s.refcnt k (some ((s.holders k + 1 : ℕ) : ℤ)), idle :=
        s.idle.erase k } := by
    rw [RefPool.ref, recount_eq hsome]
    rfl
  rw [heq]
  refine ⟨fun j => ?_, h.nodup, h.idle_nodup.erase k, h.quiet⟩
  have hidle : j ∈ s.idle.erase k ↔ j ≠ k ∧ j ∈ s.idle := h.idle_nodup.mem_erase_iff
  show Tally (Function.update s.refcnt k _ j) (s.holders j + loose (some k) j)
    _ (j ∈ s.idle.erase k)
  by_cases hjk : j = k
  · subst hjk
    have htally := tally_some (s.holders j + 1) ((h.tally j).made hk)
    rw [Function.update_self, loose_self, eq_false (fun hmem => (hidle.mp hmem).1 rfl)]
    rwa [eq_false (Nat.succ_ne_zero _)] at htally
  · rw [Function.update_of_ne hjk, loose_of_ne hjk, hidle, and_iff_right hjk]
    exact h.tally j

/-- **`unref` takes the reference of the code**, and deletes what has no
other. -/
theorem Sound.unref (h : s.Sound (some k)) : (s.unref k).Sound none := by
  have hk := (h.tally k).held (by rw [loose_self]; omega)
  have hsome := (h.tally k).exists_eq hk
  rw [loose_self] at hsome
  have heq : s.unref k = { s with
      refcnt := Function.update s.refcnt k
        (if s.holders k = 0 then none else some (s.holders k : ℤ)) } := by
    rw [RefPool.unref, recount_eq hsome]
    simp only [Int.natCast_add, Int.cast_ofNat_Int, Int.add_sub_cancel, Int.natCast_eq_zero]
  rw [heq]
  refine ⟨fun j => ?_, h.nodup, h.idle_nodup, h.quiet⟩
  by_cases hjk : j = k
  · subst hjk
    -- the loose reference counts, so it is not waiting
    have hwaits : ¬ j ∈ s.idle := by
      rw [(h.tally j).waits, hsome, Option.some.injEq]
      omega
    show Tally (Function.update s.refcnt j _ j) (s.holders j) _ _
    rw [Function.update_self, eq_false hwaits]
    split
    · rename_i hnone
      rw [hnone]
      exact tally_none
    · rename_i hsome
      have htally := tally_some (s.holders j) ((h.tally j).made hk)
      rwa [eq_false hsome] at htally
  · have htally := h.tally j
    rw [loose_of_ne hjk] at htally
    show Tally (Function.update s.refcnt k _ j) (s.holders j) _ _
    rwa [Function.update_of_ne hjk]

theorem Sound.unrefPtr (h : s.Sound p) : (s.unrefPtr p).Sound none := by
  cases p with
  | none => exact h
  | some k => exact h.unref

/-- What is referred to is there and waits no longer. -/
theorem Sound.notMem_idle (h : s.Sound p) (hk : 0 < s.holders k + loose p k) : k ∉ s.idle := by
  intro hidle
  have hcount := (h.tally k).counted 0 ((h.tally k).waits.mp hidle)
  omega

/-- `ref` through a pointer to what someone holds already. -/
theorem Sound.refPtr (h : s.Sound none) (hp : ∀ k, p = some k → 0 < s.holders k) :
    (s.refPtr p).Sound p := by
  cases p with
  | none => exact h
  | some k =>
    have hheld := hp k rfl
    have hidle : (s.ref k).idle = s.idle := (s.recount_frame k _).2.2.2
    have hsound := h.ref ((h.tally k).held hheld)
    have heq : (s.ref k).take k = s.ref k := by
      rw [take, hidle, List.erase_of_not_mem (h.notMem_idle hheld), ← hidle]
    rwa [heq] at hsound

/-- A context that is there can be called. -/
theorem call_eq (hk : s.refcnt k ≠ none) : s.call k = s := by
  obtain ⟨n, hn⟩ := Option.ne_none_iff_exists'.mp hk
  rw [call, hn]

/-- An object can call its context. -/
theorem Sound.callPtr_eq (h : s.Sound none) (hi : i ∈ s.objects) : s.callPtr (s.ptr i) = s := by
  cases hk : s.ptr i with
  | none => rfl
  | some k => exact call_eq ((h.tally k).held (holders_pos hi hk))

/-- So can the code those that wait. -/
theorem Sound.foldl_call_eq (h : s.Sound none) (l : List ℕ) (hl : ∀ k ∈ l, k ∈ s.idle) :
    l.foldl RefPool.call s = s := by
  induction l with
  | nil => rfl
  | cons k l ih =>
    have hk : s.refcnt k ≠ none := by
      rw [(h.tally k).waits.mp (hl k List.mem_cons_self)]
      exact Option.some_ne_none _
    rw [List.foldl_cons, call_eq hk]
    exact ih (fun j hj => hl j (List.mem_cons_of_mem k hj))

theorem Sound.refcnt_fresh (h : s.Sound p) : s.refcnt s.fresh = none := by
  by_contra hsome
  exact Nat.lt_irrefl _ ((h.tally s.fresh).made hsome)

theorem Sound.fresh_notMem (h : s.Sound p) : s.fresh ∉ s.idle := by
  rw [(h.tally s.fresh).waits, h.refcnt_fresh]
  exact fun he => nomatch he

/-- **A new context waits for its object.** -/
theorem Sound.create (h : s.Sound none) : (s.create.keep s.fresh).Sound none := by
  have hfresh := h.refcnt_fresh
  refine ⟨fun j => ?_, h.nodup,
    List.nodup_append.mpr ⟨h.idle_nodup, List.nodup_singleton _, ?_⟩, h.quiet⟩
  · show Tally (Function.update s.refcnt s.fresh (some 0) j) (s.holders j + 0) (j < s.fresh + 1)
      (j ∈ s.idle ++ [s.fresh])
    rw [List.mem_append, List.mem_singleton]
    by_cases hj : j = s.fresh
    · subst hj
      have hzero : s.holders s.fresh + 0 = 0 := h.holders_eq_zero hfresh
      rw [Function.update_self, hzero, eq_true (Or.inr rfl : _ ∨ s.fresh = s.fresh)]
      have htally := tally_some 0 (Nat.lt_succ_self s.fresh)
      rwa [eq_true (rfl : 0 = 0)] at htally
    · rw [Function.update_of_ne hj, or_iff_left hj]
      have htally := h.tally j
      exact ⟨htally.counted, htally.held, fun hsome =>
        Nat.lt_succ_of_lt (htally.made hsome), htally.waits⟩
  · rintro a ha b hb rfl
    exact h.fresh_notMem (List.mem_singleton.mp hb ▸ ha)

/-- A new context that the code refers to at once. -/
theorem Sound.create_ref (h : s.Sound none) : (s.create.ref s.fresh).Sound (some s.fresh) := by
  have hmade : s.create.refcnt s.fresh = some 0 := Function.update_self _ _ _
  have hsound := h.create.ref (k := s.fresh) (by rw [keep, hmade]; exact Option.some_ne_none _)
  have heq : ((s.create.keep s.fresh).ref s.fresh).take s.fresh = s.create.ref s.fresh := by
    rw [RefPool.ref, RefPool.ref, recount_eq hmade,
      recount_eq (s := s.create.keep s.fresh) hmade]
    show ({ s.create with refcnt := _, idle := (s.idle ++ [s.fresh]).erase s.fresh } :
        RefPool ι) =
      _
    rw [List.erase_append_right _ h.fresh_notMem, List.erase_cons_head, List.append_nil]
    rfl
  exact heq ▸ hsound

/-- **A walk over the objects** that keeps the counters right with each of
them. -/
theorem Sound.foldl {f : RefPool ι → ι → RefPool ι}
    (hf : ∀ t i, t.Sound none → i ∈ t.objects →
      (f t i).Sound none ∧ (f t i).objects = t.objects ∧ (f t i).idle = t.idle)
    (h : s.Sound none) (l : List ι) (hl : ∀ i ∈ l, i ∈ s.objects) :
    (l.foldl f s).Sound none ∧ (l.foldl f s).idle = s.idle := by
  induction l generalizing s with
  | nil => exact ⟨h, rfl⟩
  | cons i l ih =>
    obtain ⟨hsound, hobjects, hidle⟩ := hf s i h (hl i List.mem_cons_self)
    obtain ⟨hrest, hidle'⟩ :=
      ih hsound (fun j hj => hobjects ▸ hl j (List.mem_cons_of_mem i hj))
    exact ⟨hrest, hidle'.trans hidle⟩

section
variable [DecidableEq ι]

theorem holders_eq (hi : i ∈ s.objects) : s.holders k = s.others i k + loose (s.ptr i) k := by
  rw [holders, (List.perm_cons_erase hi).countP_eq, List.countP_cons, others, loose]
  simp only [decide_eq_true_eq]

theorem others_point (h : s.objects.Nodup) : (s.point i p).others i k = s.others i k := by
  refine List.countP_congr (fun j hj => ?_)
  have hne : j ≠ i := ((h.mem_erase_iff).mp hj).1
  simp only [point, Function.update_of_ne hne]

theorem holders_point (h : s.objects.Nodup) (hi : i ∈ s.objects) :
    (s.point i p).holders k = s.others i k + loose p k := by
  rw [holders_eq (s := s.point i p) hi, others_point h]
  show _ + loose (Function.update s.ptr i p i) k = _
  rw [Function.update_self]

theorem holders_point_of_notMem (hi : i ∉ s.objects) :
    (s.point i p).holders k = s.holders k := by
  refine List.countP_congr (fun j hj => ?_)
  have hne : j ≠ i := fun he => hi (he ▸ hj)
  simp only [point, Function.update_of_ne hne]

/-- A pointer of something that is not an object. -/
theorem Sound.point_of_notMem (h : s.Sound p) (hi : i ∉ s.objects) (q : Option ℕ) :
    (s.point i q).Sound p :=
  h.of_holders h.nodup (fun _ => by rw [holders_point_of_notMem hi]) rfl rfl rfl rfl

/-- The reference of an object is given to the code. -/
theorem Sound.point_none (h : s.Sound none) (hi : i ∈ s.objects) :
    (s.point i none).Sound (s.ptr i) := by
  refine h.of_holders h.nodup (fun k => ?_) rfl rfl rfl rfl
  rw [holders_point h.nodup hi, holders_eq hi, loose_none, Nat.add_zero, Nat.add_zero]

/-- And the reference of the code to an object. -/
theorem Sound.point (h : s.Sound p) (hi : i ∈ s.objects) (hnull : s.ptr i = none) :
    (s.point i p).Sound none := by
  refine h.of_holders h.nodup (fun k => ?_) rfl rfl rfl rfl
  rw [holders_point h.nodup hi, holders_eq hi, hnull, loose_none, Nat.add_zero, Nat.add_zero]

/-- An object that goes leaves its reference to the code. -/
theorem Sound.remove (h : s.Sound none) (hi : i ∈ s.objects) :
    (s.remove i).Sound (s.ptr i) := by
  refine h.of_holders (h.nodup.erase i) (fun k => ?_) rfl rfl rfl rfl
  rw [holders_eq hi, loose_none, Nat.add_zero]
  rfl

/-- Pointers and counters do not meet. -/
theorem recount_point (s : RefPool ι) (k : ℕ) (f : ℤ → Option ℤ) (i : ι) (p : Option ℕ) :
    (s.recount k f).point i p = (s.point i p).recount k f := by
  unfold RefPool.recount
  show RefPool.point (match s.refcnt k with | none => _ | some n => _) i p =
    match s.refcnt k with | none => _ | some n => _
  cases s.refcnt k <;> rfl

theorem unrefPtr_point (s : RefPool ι) (p : Option ℕ) (i : ι) (q : Option ℕ) :
    (s.unrefPtr p).point i q = (s.point i q).unrefPtr p := by
  cases p with
  | none => rfl
  | some k => exact recount_point s k _ i q

theorem refPtr_point (s : RefPool ι) (p : Option ℕ) (i : ι) (q : Option ℕ) :
    (s.refPtr p).point i q = (s.point i q).refPtr p := by
  cases p with
  | none => rfl
  | some k => exact recount_point s k _ i q

theorem point_point (s : RefPool ι) (i : ι) (p q : Option ℕ) :
    (s.point i p).point i q = s.point i q := by
  rw [point, point, point, Function.update_idem]

theorem ptr_point (s : RefPool ι) (i : ι) (p : Option ℕ) : (s.point i p).ptr i = p :=
  Function.update_self _ _ _

/-- Another object that refers to the context is one of the others. -/
theorem others_pos (hj : j ∈ s.objects) (hne : j ≠ i) (hk : s.ptr j = some k) :
    0 < s.others i k :=
  List.countP_pos_iff.mpr ⟨j, (List.mem_erase_of_ne hne).mpr hj, decide_eq_true hk⟩

/-- **A new object** that refers to what someone holds, or to nothing. -/
theorem Sound.enter (h : s.Sound none) (hi : i ∉ s.objects) (hp : ∀ k, p = some k →
    0 < s.holders k) :
    (((s.point i p).refPtr p).add i).Sound none := by
  obtain ⟨hobjects, hptr, -, -⟩ := (s.point i p).refPtr_frame p
  have hsound := (h.point_of_notMem hi p).refPtr (p := p)
    (fun k hk => by rw [holders_point_of_notMem hi]; exact hp k hk)
  refine Sound.add ?_ (hobjects ▸ hi)
  rwa [hptr, ptr_point]

/-- **An object that gives up its reference.** -/
theorem Sound.release (h : s.Sound none) (hi : i ∈ s.objects) : (s.release i).Sound none := by
  unfold RefPool.release
  split
  · exact h
  · rename_i k hk
    rw [RefPool.unref, recount_point]
    exact (hk ▸ h.point_none hi : (s.point i none).Sound (some k)).unref

/-- **An object that is given a new context** where it had none. -/
theorem Sound.attach (h : s.Sound none) (hi : i ∈ s.objects) (hnull : s.ptr i = none) :
    (s.attach i).Sound none := by
  obtain ⟨hobjects, hptr, -, -⟩ := s.create.recount_frame s.fresh (fun n => some (n + 1))
  rw [RefPool.attach, RefPool.ref, ← recount_point]
  refine h.create_ref.point ?_ ?_
  · exact hobjects ▸ hi
  · exact hptr ▸ hnull

theorem release_frame (s : RefPool ι) (i : ι) :
    (s.release i).objects = s.objects ∧ (s.release i).idle = s.idle ∧
    (s.release i).ptr i = none := by
  unfold RefPool.release
  split
  · rename_i hnull
    exact ⟨rfl, rfl, hnull⟩
  · rename_i k hk
    obtain ⟨hobjects, -, -, hidle⟩ := s.recount_frame k
      (fun n => if n - 1 = 0 then none else some (n - 1))
    exact ⟨hobjects, hidle, Function.update_self _ _ _⟩

theorem attach_frame (s : RefPool ι) (i : ι) :
    (s.attach i).objects = s.objects ∧ (s.attach i).idle = s.idle := by
  obtain ⟨hobjects, -, -, hidle⟩ :=
    (s.create.point i (some s.fresh)).recount_frame s.fresh (fun n => some (n + 1))
  exact ⟨hobjects, hidle⟩

theorem Sound.dismiss (h : s.Sound none) (hi : i ∈ s.objects) : (s.dismiss i).Sound none := by
  unfold RefPool.dismiss
  split
  · exact h
  · rename_i k hk
    rw [call_eq ((h.tally k).held (holders_pos hi hk))]
    have hrelease := h.release hi
    rwa [RefPool.release, hk] at hrelease

/-- What is released or dismissed stays an object, and nothing else waits. -/
theorem dismiss_frame (s : RefPool ι) (i : ι) :
    (s.dismiss i).objects = s.objects ∧ (s.dismiss i).idle = s.idle := by
  unfold RefPool.dismiss
  split
  · exact ⟨rfl, rfl⟩
  · rename_i k hk
    obtain ⟨hobjects, -, -, hidle⟩ :=
      (s.call k).recount_frame k (fun n => if n - 1 = 0 then none else some (n - 1))
    obtain ⟨hobjects', -, hidle'⟩ := s.call_frame k
    exact ⟨hobjects.trans hobjects', hidle.trans hidle'⟩

theorem Sound.dismissAll (h : s.Sound none) :
    s.dismissAll.Sound none ∧ s.dismissAll.idle = s.idle :=
  Sound.foldl (fun t i ht hi => ⟨ht.dismiss hi, t.dismiss_frame i⟩) h s.objects (fun _ hi => hi)

theorem Sound.dismissAllExcept (h : s.Sound none) (ex : ι) :
    (s.dismissAllExcept ex).Sound none ∧ (s.dismissAllExcept ex).idle = s.idle := by
  refine Sound.foldl (fun t i ht hi => ?_) h s.objects (fun _ hi => hi)
  split
  · exact ⟨ht, rfl, rfl⟩
  · exact ⟨ht.dismiss hi, t.dismiss_frame i⟩

/-! ## Losing count -/

/-- **A new context for an object that has one, or is not there**: the counter
of the old one is too high, or that of the new. -/
theorem not_right_attach (h : s.Sound none) (hi : ¬ (i ∈ s.objects ∧ s.ptr i = none)) :
    ¬ (s.attach i).Right := by
  have hmade : (s.create.point i (some s.fresh)).refcnt s.fresh = some 0 :=
    Function.update_self _ _ _
  have heq : s.attach i = { s.create.point i (some s.fresh) with
      refcnt :=
        Function.update (s.create.point i (some s.fresh)).refcnt s.fresh (some 1) } := by
    rw [attach, ref, recount_eq hmade]
    rfl
  rw [heq]
  by_cases hmem : i ∈ s.objects
  · -- the context that was there loses an object and keeps its count
    obtain ⟨k, hk⟩ := Option.ne_none_iff_exists'.mp (fun hnull => hi ⟨hmem, hnull⟩)
    have hsome := (h.tally k).held (holders_pos hmem hk)
    have hne : k ≠ s.fresh := by
      rintro rfl
      exact hsome h.refcnt_fresh
    refine not_right_of_lost h hsome ?_ ?_
    · show Function.update (Function.update s.refcnt s.fresh (some 0)) s.fresh (some 1) k = _
      rw [Function.update_of_ne hne, Function.update_of_ne hne]
    · show (s.point i (some s.fresh)).holders k < s.holders k
      rw [holders_point h.nodup hmem, loose_of_ne hne, holders_eq hmem, hk, loose_self]
      omega
  · -- the new context counts one, and no object is there to hold it
    intro hright
    have hcount := hright.1 s.fresh 1 (Function.update_self _ _ _)
    have hzero : (s.point i (some s.fresh)).holders s.fresh = 0 := by
      rw [holders_point_of_notMem hmem]
      exact h.holders_eq_zero h.refcnt_fresh
    exact absurd (hcount.trans (congrArg Nat.cast hzero)) (by decide)

end

end RefPool
