import Esp31b.Fueled
import Esp31b.Linked

/-!
# The list of the objects of a class

`SList<T>` is a base class of objects that know of each other: a static pointer
to the first, and in each a pointer to the next one. A constructor calls `_add`
and a destructor `_remove`, which goes along the list to the object in front of
the one that leaves.

Both are written over the pointers, and an access through null, or to an object
that is not there, has no result. In a list of all the objects there are
(`SList.Represents`) there is no such access: `_remove` finds the object it
looks for before the list ends.
-/

/-- `SList<T>`: `_s_first`, and `_next` of each object that is there. -/
structure SList where
  first : Option ℕ
  next : ℕ → Option (Option ℕ)

namespace SList

/-- No object. -/
def init : SList := ⟨none, fun _ => none⟩

/-- `SList()`, of an object at a new address. -/
def construct (s : SList) (self : ℕ) : SList :=
  { s with next := Function.update s.next self (some none) }

/-- The object at an address is not there any more. -/
def destruct (s : SList) (self : ℕ) : SList :=
  { s with next := Function.update s.next self none }

/-- `self->_next = p`. -/
def setNext (s : SList) (self : ℕ) (p : Option ℕ) : Option SList :=
  match s.next self with
  | none => none
  | some _ => some { s with next := Function.update s.next self (some p) }

/-- `_add`. -/
def add (s : SList) (self : ℕ) : Option SList :=
  let tmp := s.first
  setNext { s with first := some self } self tmp

/-- A turn of the loop of `_remove`. -/
def removeTurn (s : SList) (self : ℕ) (prev : Option ℕ) : Option ℕ ⊕ Option SList :=
  match prev with
  | none => .inr none
  | some prev =>
    match s.next prev with
    | none => .inr none
    | some none => .inr (some s)
    | some (some next) =>
      if next = self then
        .inr (do
          let p ← s.next self
          let s ← s.setNext prev p
          s.setNext self none)
      else .inl (some next)

/-- `_remove`. -/
def remove (s : SList) (self : ℕ) : Fueled (Option SList) :=
  if s.first = some self then
    pure (do
      let p ← s.next self
      setNext { s with first := p } self none)
  else Fueled.loop (fun prev => pure (s.removeTurn self prev)) s.first

variable {σ : Type}

/-- A turn of a loop over all objects. -/
def forEachTurn (s : SList) (body : σ → ℕ → σ) (t : Option ℕ × σ) : (Option ℕ × σ) ⊕ Option σ :=
  match t.1 with
  | none => .inr (some t.2)
  | some it =>
    match s.next it with
    | none => .inr none
    | some next => .inl (next, body t.2 it)

/-- `for (T* it = _s_first; it; it = it->_next)`, with a body that leaves the
list alone. -/
def forEach (s : SList) (body : σ → ℕ → σ) (a : σ) : Fueled (Option σ) :=
  Fueled.loop (fun t => pure (s.forEachTurn body t)) (s.first, a)

/-- **The list is of all the objects there are**, in this order. -/
structure Represents (s : SList) (l : List ℕ) : Prop where
  path : Linked.Path s.next s.first l
  there : ∀ i, (s.next i).isSome = true ↔ i ∈ l

variable {s t : SList} {l l₁ : List ℕ} {i a : ℕ}

theorem represents_init : init.Represents [] := ⟨Linked.path_nil, by simp [init]⟩

theorem setNext_of_some {p q : Option ℕ} (h : s.next i = some q) :
    s.setNext i p = some { s with next := Function.update s.next i (some p) } := by
  unfold setNext
  rw [h]

/-- **A new object is in front of the others.** -/
theorem Represents.add (h : s.Represents l) (hi : i ∉ l) :
    ∃ t, (s.construct i).add i = some t ∧ t.Represents (i :: l) := by
  have hnext : (s.construct i).next i = some none := Function.update_self i _ s.next
  refine ⟨_, setNext_of_some hnext, ?_, fun j => ?_⟩
  · exact (h.path.update hi (some none)).push hi
  · show (Function.update (Function.update s.next i _) i _ j).isSome = true ↔ _
    by_cases hj : j = i
    · subst hj
      simp
    · rw [Function.update_of_ne hj, Function.update_of_ne hj, h.there, List.mem_cons,
        or_iff_right hj]

/-- An object that was taken out of the path and is destroyed. -/
theorem represents_destruct {next : ℕ → Option (Option ℕ)} {p : Option ℕ}
    (hpath : Linked.Path next p l) (hi : i ∉ l)
    (hthere : ∀ j ≠ i, (next j).isSome = true ↔ j ∈ l) :
    (destruct ⟨p, Function.update next i (some none)⟩ i).Represents l := by
  have hnext : (destruct ⟨p, Function.update next i (some none)⟩ i).next =
      Function.update next i none := Function.update_idem _ _ _
  refine ⟨hnext ▸ hpath.update hi none, fun j => ?_⟩
  rw [hnext]
  by_cases hj : j = i
  · subst hj
    simp [hi]
  · rw [Function.update_of_ne hj]
    exact hthere j hj

/-- A turn of `_remove` at an object that is not in front of the one looked for. -/
theorem removeTurn_of_ne {b : ℕ} (ha : s.next a = some (some b)) (hbi : b ≠ i) :
    s.removeTurn i (some a) = .inl (some b) := by
  simp only [removeTurn, ha, if_neg hbi]

/-- A turn at the object in front of it. -/
theorem removeTurn_of_eq {q : Option ℕ} (ha : s.next a = some (some i)) (hi : s.next i = some q)
    (hai : i ≠ a) :
    s.removeTurn i (some a) = .inr (some { s with
      next := Function.update (Function.update s.next a (some q)) i (some none) }) := by
  have hkept : Function.update s.next a (some q) i = some q :=
    (Function.update_of_ne hai _ _).trans hi
  simp only [removeTurn, ha, if_true, hi, setNext_of_some ha, Option.bind_eq_bind,
    Option.bind_some]
  rw [setNext_of_some hkept]

/-- **The loop of `_remove`** comes from any object to the one in front of the
one it looks for. -/
theorem yields_removeLoop (hpath : Linked.Path s.next s.first (l₁ ++ a :: l)) (hi : i ∈ l) :
    ∃ prev q, (Fueled.loop (fun prev => pure (s.removeTurn i prev)) (some a)).Yields
        (some { s with
          next := Function.update (Function.update s.next prev (some q)) i (some none) }) ∧
      Linked.Path (Function.update s.next prev (some q)) s.first ((l₁ ++ a :: l).erase i) ∧
      (s.next prev).isSome = true := by
  induction l generalizing l₁ a with
  | nil => exact absurd hi List.not_mem_nil
  | cons b l ih =>
    obtain ⟨q, ha, hb, hunlinked⟩ := hpath.unlink
    by_cases hbi : b = i
    · subst hbi
      obtain ⟨-, hback, hdisjoint⟩ := List.nodup_append.mp hpath.nodup
      have hba : b ≠ a := fun hab => (List.nodup_cons.mp hback).1 (hab ▸ List.mem_cons_self)
      have hfront : b ∉ l₁ := fun hmem =>
        hdisjoint b hmem b (List.mem_cons_of_mem a List.mem_cons_self) rfl
      have herase : (l₁ ++ a :: b :: l).erase b = l₁ ++ a :: l := by
        rw [List.erase_append_right _ hfront, List.erase_cons_tail (by simpa using hba.symm),
          List.erase_cons_head]
      exact ⟨a, q, Fueled.yields_loop_inr (removeTurn_of_eq ha hb hba), herase ▸ hunlinked,
        by rw [ha]; rfl⟩
    · have hassoc : l₁ ++ a :: b :: l = l₁ ++ [a] ++ b :: l := by
        rw [List.append_assoc, List.singleton_append]
      have hil : i ∈ l := (List.mem_cons.mp hi).resolve_left (Ne.symm hbi)
      rw [hassoc] at hpath ⊢
      obtain ⟨prev, q, hloop, hrest, hprev⟩ := ih hpath hil
      exact ⟨prev, q, Fueled.yields_loop_inl (removeTurn_of_ne ha hbi) hloop, hrest, hprev⟩

/-- **An object leaves**, and the others stay in their order. -/
theorem Represents.remove (h : s.Represents l) (hi : i ∈ l) :
    ∃ t, (s.remove i).Yields (some t) ∧ (t.destruct i).Represents (l.erase i) := by
  have hnodup := h.path.nodup
  have hgone : i ∉ l.erase i := hnodup.not_mem_erase
  have hothers : ∀ j ≠ i, (s.next j).isSome = true ↔ j ∈ l.erase i := fun j hj =>
    (h.there j).trans (List.mem_erase_of_ne hj).symm
  obtain ⟨hpath, hthere⟩ := h
  cases l with
  | nil => exact absurd hi List.not_mem_nil
  | cons a l =>
    have hfirst : s.first = some a := hpath.1
    by_cases hai : a = i
    · -- the first one
      subst hai
      obtain ⟨-, q, hq, hrest⟩ := hpath
      rw [List.erase_cons_head] at hgone hothers ⊢
      refine ⟨⟨q, Function.update s.next a (some none)⟩, ?_,
        represents_destruct hrest hgone hothers⟩
      unfold SList.remove
      rw [if_pos hfirst, hq, Option.bind_eq_bind, Option.bind_some,
        setNext_of_some (s := ⟨q, s.next⟩) hq]
      exact Fueled.yields_pure _
    · have hil : i ∈ l := (List.mem_cons.mp hi).resolve_left (Ne.symm hai)
      have hwhole : Linked.Path s.next s.first ([] ++ a :: l) := hpath
      obtain ⟨prev, q, hloop, hrest, hprev⟩ := yields_removeLoop hwhole hil
      have hnot : ¬s.first = some i := fun heq =>
        hai (Option.some.inj (hfirst.symm.trans heq))
      have hstart : Fueled.loop (fun prev => pure (s.removeTurn i prev)) s.first =
          Fueled.loop (fun prev => pure (s.removeTurn i prev)) (some a) := by rw [hfirst]
      refine ⟨_, ?_, represents_destruct hrest hgone fun j hj => ?_⟩
      · unfold SList.remove
        rw [if_neg hnot, hstart]
        exact hloop
      · by_cases hjp : j = prev
        · subst hjp
          rw [Function.update_self]
          exact iff_of_true rfl ((hothers j hj).mp hprev)
        · rw [Function.update_of_ne hjp]
          exact hothers j hj

/-- **A loop over all objects** comes to each of them once, in order, and ends. -/
theorem Represents.yields_forEach (h : s.Represents l) (body : σ → ℕ → σ) (a : σ) :
    (s.forEach body a).Yields (some (l.foldl body a)) := by
  have hloop : ∀ (p : Option ℕ) (a : σ), Linked.Path s.next p l →
      (Fueled.loop (fun t => pure (s.forEachTurn body t)) (p, a)).Yields
        (some (l.foldl body a)) := by
    clear h
    induction l with
    | nil =>
      rintro p a rfl
      exact Fueled.yields_loop_inr rfl
    | cons i l ih =>
      rintro p a ⟨rfl, q, hq, hrest⟩
      have hturn : s.forEachTurn body (some i, a) = .inl (q, body a i) := by
        simp only [forEachTurn, hq]
      exact Fueled.yields_loop_inl hturn (ih q (body a i) hrest)
  exact hloop s.first a h.path

end SList
