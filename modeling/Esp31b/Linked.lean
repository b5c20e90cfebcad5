import Mathlib.Data.List.Nodup
import Mathlib.Logic.Function.Basic

/-!
# Linked lists

Each cell that is there has a link, null or to another cell. From a pointer the
links lead over some cells, and `Linked.Path` says over which, in order, up to
a null link. There is one such list at most (`Linked.Path.unique`), so a path
that ends does not come back to a cell it was at (`Linked.Path.nodup`): to be
acyclic is no condition of its own.

Two changes of the links are described: a cell that is put in front, and a cell
that is taken out behind another one. What is done to the links of other cells
does not matter (`Linked.Path.congr`).
-/

namespace Linked

variable {α : Type*}

/-- **The links lead from `p` over these cells to null.** `next` is `none`
where there is no cell. -/
def Path (next : α → Option (Option α)) : Option α → List α → Prop
  | p, [] => p = none
  | p, a :: l => p = some a ∧ ∃ q, next a = some q ∧ Path next q l

variable {next next' : α → Option (Option α)} {p : Option α} {a b : α} {l l' l₁ : List α}

theorem path_nil : Path next none [] := rfl

/-- A pointer to a cell, and a path from the cell's link. -/
theorem path_cons {q : Option α} (hnext : next a = some q) (h : Path next q l) :
    Path next (some a) (a :: l) :=
  ⟨rfl, q, hnext, h⟩

/-- **The links lead over one list of cells.** -/
theorem Path.unique (h : Path next p l) (h' : Path next p l') : l = l' := by
  induction l generalizing p l' with
  | nil =>
    obtain rfl : p = none := h
    cases l' with
    | nil => rfl
    | cons b l' => exact absurd h'.1 (Option.some_ne_none b).symm
  | cons a l ih =>
    obtain ⟨rfl, q, hq, h⟩ := h
    cases l' with
    | nil => exact absurd h' (Option.some_ne_none a)
    | cons b l' =>
      obtain ⟨hab, q', hq', h'⟩ := h'
      obtain rfl := Option.some.inj hab
      obtain rfl := Option.some.inj (hq.symm.trans hq')
      rw [ih h h']

/-- From a cell of the list the links lead over the cells behind it. -/
theorem Path.drop (h : Path next p (l₁ ++ a :: l)) : Path next (some a) (a :: l) := by
  induction l₁ generalizing p with
  | nil => exact h.1 ▸ h
  | cons b l₁ ih =>
    obtain ⟨-, q, -, h⟩ := h
    exact ih h

/-- **A path that ends does not come back.** -/
theorem Path.nodup (h : Path next p l) : l.Nodup := by
  induction l generalizing p with
  | nil => exact List.nodup_nil
  | cons a l ih =>
    obtain ⟨rfl, q, hq, h'⟩ := h
    refine List.nodup_cons.mpr ⟨fun hmem => ?_, ih h'⟩
    obtain ⟨l₁, l₂, rfl⟩ := List.append_of_mem hmem
    -- what is behind the second visit is what is behind the first
    have hsame := (path_cons hq h').unique h'.drop
    have hlength := congrArg List.length hsame
    simp only [List.length_cons, List.length_append] at hlength
    omega

/-- **Other cells do not matter.** -/
theorem Path.congr (h : Path next p l) (hsame : ∀ a ∈ l, next' a = next a) :
    Path next' p l := by
  induction l generalizing p with
  | nil => exact h
  | cons a l ih =>
    obtain ⟨rfl, q, hq, h⟩ := h
    refine path_cons ((hsame a List.mem_cons_self).trans hq) ?_
    exact ih h fun b hb => hsame b (List.mem_cons_of_mem a hb)

section
variable [DecidableEq α]

/-- The link of a cell outside of the path is set. -/
theorem Path.update (h : Path next p l) (ha : a ∉ l) (q : Option (Option α)) :
    Path (Function.update next a q) p l :=
  h.congr fun _ hb => Function.update_of_ne (ne_of_mem_of_not_mem hb ha) _ _

/-- **A cell is put in front.** -/
theorem Path.push (h : Path next p l) (ha : a ∉ l) :
    Path (Function.update next a (some p)) (some a) (a :: l) :=
  path_cons (Function.update_self a (some p) next) (h.update ha (some p))

/-- **A cell is taken out** behind another one, which gets its link. -/
theorem Path.unlink (h : Path next p (l₁ ++ a :: b :: l)) :
    ∃ q, next a = some (some b) ∧ next b = some q ∧
      Path (Function.update next a (some q)) p (l₁ ++ a :: l) := by
  induction l₁ generalizing p with
  | nil =>
    have hnodup := h.nodup
    obtain ⟨rfl, -, hb, rfl, q, hq, h⟩ := h
    have ha : a ∉ l := fun hmem => (List.nodup_cons.mp hnodup).1 (List.mem_cons_of_mem b hmem)
    exact ⟨q, hb, hq, h.push ha⟩
  | cons c l₁ ih =>
    have hnodup := h.nodup
    obtain ⟨rfl, r, hc, h⟩ := h
    obtain ⟨q, ha, hq, hpath⟩ := ih h
    have hca : c ≠ a := by
      rintro rfl
      exact (List.nodup_cons.mp hnodup).1 (List.mem_append_right l₁ List.mem_cons_self)
    exact ⟨q, ha, hq, path_cons ((Function.update_of_ne hca _ _).trans hc) hpath⟩

end

end Linked
