import Mathlib.Order.Basic
import Mathlib.Data.Nat.Basic

/-!
# Computations that may wait for ever

Code that waits for its peer – for a byte, for room, for a reply – is a loop
whose end lies in what the peer does. Such code is modelled with fuel: a
`Fueled` computation is asked for its result with a number of loop turns at
its disposal and answers `none` when they do not suffice. The computations
form a monad, and `Fueled.loop` is the loop whose body may itself wait.

Nothing is ever claimed for a particular amount of fuel. `Fueled.Yields`
says that the computation ends with the given result, that is, that every
sufficiently large amount of fuel produces it; a computation that waits for
ever yields nothing. The rules below are those of a big-step semantics: one
for the composition, one for each way a loop turn can end, and an induction
rule for loops with a variant. `Fueled.Never` is the opposite, that no amount
of fuel suffices; its rule for loops asks for an invariant and no variant.
-/

/-- **A computation that may wait for ever**, run with a number of loop
turns. -/
def Fueled (α : Type) : Type := ℕ → Option α

namespace Fueled

variable {α β σ : Type}

instance : Monad Fueled where
  pure a := fun _ => some a
  bind m f := fun n => (m n).bind (fun a => f a n)

/-- **No result**, however much fuel there is: the meaning of an access that
leaves its block. -/
def undefined : Fueled α := fun _ => none

theorem eq_of_pure {a b : α} {n : ℕ} (h : (pure a : Fueled α) n = some b) : b = a :=
  (Option.some.inj h).symm

theorem exists_of_bind {m : Fueled α} {f : α → Fueled β} {b : β} {n : ℕ}
    (h : (m >>= f) n = some b) : ∃ a, m n = some a ∧ f a n = some b :=
  Option.bind_eq_some_iff.mp h

/-- The turns of a loop: `inl` goes round again, `inr` leaves it. -/
def turns (body : σ → Fueled (σ ⊕ α)) : ℕ → σ → Option α
  | 0, _ => none
  | n + 1, s => (body s n).bind (fun r => r.elim (turns body n) some)

/-- **A loop** over a state, left by its body with a result. -/
def loop (body : σ → Fueled (σ ⊕ α)) (s : σ) : Fueled α :=
  fun n => turns body n s

/-- **The computation ends with this result**, given fuel enough. -/
def Yields (m : Fueled α) (a : α) : Prop :=
  ∃ N, ∀ n ≥ N, m n = some a

theorem yields_pure (a : α) : (pure a : Fueled α).Yields a := ⟨0, fun _ _ => rfl⟩

/-- **A computation has one result.** -/
theorem Yields.unique {m : Fueled α} {a b : α} (ha : m.Yields a) (hb : m.Yields b) : a = b := by
  obtain ⟨N, hN⟩ := ha
  obtain ⟨M, hM⟩ := hb
  have h : some a = some b := by
    rw [← hN (max N M) (le_max_left _ _), hM (max N M) (le_max_right _ _)]
  exact Option.some.inj h

/-- **Composition**: what the first part yields is what the second starts
from. -/
theorem Yields.bind {m : Fueled α} {f : α → Fueled β} {a : α} {b : β} (hm : m.Yields a)
    (hf : (f a).Yields b) : (m >>= f).Yields b := by
  obtain ⟨N, hN⟩ := hm
  obtain ⟨M, hM⟩ := hf
  refine ⟨max N M, fun n hn => ?_⟩
  show (m n).bind (fun a => f a n) = some b
  rw [hN n (le_trans (le_max_left _ _) hn)]
  exact hM n (le_trans (le_max_right _ _) hn)

theorem Yields.exists_bind {m : Fueled α} {f : α → Fueled β} {a : α} (hm : m.Yields a)
    (hf : ∃ b, (f a).Yields b) : ∃ b, (m >>= f).Yields b := by
  obtain ⟨b, hb⟩ := hf
  exact ⟨b, hm.bind hb⟩

/-- What a composition yields, its second part does. -/
theorem Yields.of_bind {m : Fueled α} {f : α → Fueled β} {a : α} {b : β}
    (h : (m >>= f).Yields b)
    (hm : m.Yields a) : (f a).Yields b := by
  obtain ⟨N, hN⟩ := h
  obtain ⟨M, hM⟩ := hm
  refine ⟨max N M, fun n hn => ?_⟩
  have hrun : (m n).bind (fun a => f a n) = some b := hN n (le_trans (le_max_left _ _) hn)
  rw [hM n (le_trans (le_max_right _ _) hn)] at hrun
  exact hrun

/-- A turn that goes round: the loop yields what it yields from the new
state. -/
theorem yields_loop_again {body : σ → Fueled (σ ⊕ α)} {s t : σ} {a : α}
    (hbody : (body s).Yields (Sum.inl t)) (hloop : (loop body t).Yields a) :
    (loop body s).Yields a := by
  obtain ⟨N, hN⟩ := hbody
  obtain ⟨M, hM⟩ := hloop
  refine ⟨max N M + 1, fun n hn => ?_⟩
  obtain ⟨k, rfl⟩ : ∃ k, n = k + 1 := ⟨n - 1, by omega⟩
  show (body s k).bind (fun r => r.elim (turns body k) some) = some a
  rw [hN k (by omega)]
  exact hM k (by omega)

/-- A turn that leaves: the loop yields what the body left with. -/
theorem yields_loop_leave {body : σ → Fueled (σ ⊕ α)} {s : σ} {a : α}
    (hbody : (body s).Yields (Sum.inr a)) : (loop body s).Yields a := by
  obtain ⟨N, hN⟩ := hbody
  refine ⟨N + 1, fun n hn => ?_⟩
  obtain ⟨k, rfl⟩ : ∃ k, n = k + 1 := ⟨n - 1, by omega⟩
  show (body s k).bind (fun r => r.elim (turns body k) some) = some a
  rw [hN k (by omega)]
  rfl

/-- The two ways a turn can end that does not wait itself. -/
theorem yields_loop_inl {body : σ → σ ⊕ α} {s t : σ} {a : α} (hbody : body s = Sum.inl t)
    (hloop : (loop (fun s => pure (body s)) t).Yields a) :
    (loop (fun s => pure (body s)) s).Yields a :=
  yields_loop_again (hbody ▸ yields_pure (body s)) hloop

theorem yields_loop_inr {body : σ → σ ⊕ α} {s : σ} {a : α} (hbody : body s = Sum.inr a) :
    (loop (fun s => pure (body s)) s).Yields a :=
  yields_loop_leave (hbody ▸ yields_pure (body s))

/-- **The loop rule for total correctness**: from every state that meets the
invariant, a turn leaves with a good result or goes on with the invariant
and a smaller variant. -/
theorem exists_yields_loop {body : σ → Fueled (σ ⊕ α)} (I : σ → Prop) (v : σ → ℕ) (Q : α → Prop)
    (hturn : ∀ s, I s → (∃ a, (body s).Yields (Sum.inr a) ∧ Q a) ∨
      ∃ t, (body s).Yields (Sum.inl t) ∧ I t ∧ v t < v s)
    {s : σ} (hs : I s) : ∃ a, (loop body s).Yields a ∧ Q a := by
  induction hv : v s using Nat.strong_induction_on generalizing s with
  | _ k ih =>
    rcases hturn s hs with ⟨a, ha, hQ⟩ | ⟨t, ht, hI, hlt⟩
    · exact ⟨a, yields_loop_leave ha, hQ⟩
    · obtain ⟨a, ha, hQ⟩ := ih (v t) (hv ▸ hlt) hI rfl
      exact ⟨a, yields_loop_again ht ha, hQ⟩

/-- **Some turns of a loop** lead from one state to another. -/
inductive Steps (body : σ → Fueled (σ ⊕ α)) : σ → σ → Prop where
  | refl (s : σ) : Steps body s s
  | head {s t u : σ} (hbody : (body s).Yields (Sum.inl t)) (h : Steps body t u) : Steps body s u

/-- Turns that were made do not change what a loop yields. -/
theorem Steps.yields_iff {body : σ → Fueled (σ ⊕ α)} {s t : σ} (h : Steps body s t) (a : α) :
    (loop body s).Yields a ↔ (loop body t).Yields a := by
  induction h with
  | refl s => exact Iff.rfl
  | @head s t u hbody h ih =>
    refine ⟨fun hs => ih.mp ?_, fun hu => yields_loop_again hbody (ih.mpr hu)⟩
    obtain ⟨N, hN⟩ := hbody
    obtain ⟨M, hM⟩ := hs
    refine ⟨max N M, fun n hn => ?_⟩
    have hrun : (body s n).bind (fun r => r.elim (turns body n) some) = some a :=
      hM (n + 1) (by omega)
    rw [hN n (by omega)] at hrun
    exact hrun

/-- **The loop rule for partial correctness**: what every turn keeps, or
establishes as it leaves, holds of every result. -/
theorem loop_sound {body : σ → Fueled (σ ⊕ α)} (I : σ → Prop) (Q : α → Prop)
    (hagain : ∀ s n t, I s → body s n = some (Sum.inl t) → I t)
    (hleave : ∀ s n a, I s → body s n = some (Sum.inr a) → Q a)
    {s : σ} {n : ℕ} {a : α} (hs : I s) (h : loop body s n = some a) : Q a := by
  induction n generalizing s with
  | zero => cases h
  | succ n ih =>
    obtain ⟨r, hbody, hr⟩ := Option.bind_eq_some_iff.mp h
    cases r with
    | inl t => exact ih (hagain s n t hs hbody) hr
    | inr b =>
      obtain rfl : b = a := Option.some.inj hr
      exact hleave s n b hs hbody

/-- **More fuel does not change a result.** -/
def Steady (m : Fueled α) : Prop := ∀ n a, m n = some a → ∀ k ≥ n, m k = some a

theorem Steady.yields {m : Fueled α} {n : ℕ} {a : α} (h : m.Steady) (ha : m n = some a) :
    m.Yields a := ⟨n, h n a ha⟩

/-- What a composition yields is what its second part makes of what the first
yields. -/
theorem Steady.of_bind {m : Fueled α} {f : α → Fueled β} {b : β} (hm : m.Steady)
    (h : (m >>= f).Yields b) : ∃ a, m.Yields a ∧ (f a).Yields b := by
  obtain ⟨N, hN⟩ := h
  obtain ⟨a, ha, -⟩ := Fueled.exists_of_bind (hN N (le_refl N))
  exact ⟨a, hm.yields ha, Yields.of_bind ⟨N, hN⟩ (hm.yields ha)⟩

theorem steady_pure (a : α) : (pure a : Fueled α).Steady := fun _ _ h _ _ => h

theorem Steady.bind {m : Fueled α} {f : α → Fueled β} (hm : m.Steady) (hf : ∀ a, (f a).Steady) :
    (m >>= f).Steady := by
  intro n b h k hk
  obtain ⟨a, ha, hb⟩ := exists_of_bind h
  show (m k).bind (fun a => f a k) = some b
  rw [hm n a ha k hk]
  exact hf a n b hb k hk

theorem Steady.ite {m m' : Fueled α} {P : Prop} [Decidable P] (hm : m.Steady)
    (hm' : m'.Steady) :
    (if P then m else m').Steady := by
  split
  · exact hm
  · exact hm'

theorem steady_loop {body : σ → Fueled (σ ⊕ α)} (hbody : ∀ s, (body s).Steady) (s : σ) :
    (loop body s).Steady := by
  intro n a h k hk
  induction n generalizing s k with
  | zero => cases h
  | succ n ih =>
    obtain ⟨k, rfl⟩ : ∃ j, k = j + 1 := ⟨k - 1, by omega⟩
    obtain ⟨r, hr, hrest⟩ := Option.bind_eq_some_iff.mp h
    show (body s k).bind (fun r => r.elim (turns body k) some) = some a
    rw [hbody s n r hr k (by omega)]
    cases r with
    | inl t => exact ih t hrest k (by omega)
    | inr b => exact hrest

/-- **Whatever the computation gives** has the property. -/
def Gives (P : α → Prop) (m : Fueled α) : Prop := ∀ n a, m n = some a → P a

theorem gives_pure {P : α → Prop} {a : α} (h : P a) : (pure a : Fueled α).Gives P :=
  fun _ _ hrun => eq_of_pure hrun ▸ h

theorem gives_undefined {P : α → Prop} : (undefined : Fueled α).Gives P :=
  fun _ _ h => nomatch h

theorem gives_bind {P : β → Prop} (m : Fueled α) {f : α → Fueled β} (hf : ∀ a, (f a).Gives P) :
    (m >>= f).Gives P := by
  intro n b hrun
  obtain ⟨a, -, hb⟩ := exists_of_bind hrun
  exact hf a n b hb

/-- **Composition**, with what is known of the first part. -/
theorem Gives.bind {P : α → Prop} {Q : β → Prop} {m : Fueled α} {f : α → Fueled β}
    (hm : m.Gives P)
    (hf : ∀ a, P a → (f a).Gives Q) : (m >>= f).Gives Q := by
  intro n b hrun
  obtain ⟨a, ha, hb⟩ := exists_of_bind hrun
  exact hf a (hm n a ha) n b hb

theorem Gives.of_yields {P : α → Prop} {m : Fueled α} {a : α} (h : m.Gives P)
    (ha : m.Yields a) :
    P a := by
  obtain ⟨N, hN⟩ := ha
  exact h N a (hN N le_rfl)

/-- **The loop rule** for what every turn keeps, or establishes as it leaves. -/
theorem gives_loop {body : σ → Fueled (σ ⊕ α)} {I : σ → Prop} {Q : α → Prop}
    (hturn : ∀ s, I s → (body s).Gives fun r => r.elim I Q) {s : σ} (hs : I s) :
    (loop body s).Gives Q := fun _ _ hrun =>
  loop_sound I Q (fun s n t hI hbody => hturn s hI n (Sum.inl t) hbody)
    (fun s n a hI hbody => hturn s hI n (Sum.inr a) hbody) hs hrun

/-- The invariant holds after some turns. -/
theorem Steps.invariant {body : σ → Fueled (σ ⊕ α)} {I : σ → Prop} {Q : α → Prop}
    (hturn : ∀ s, I s → (body s).Gives fun r => r.elim I Q) {s t : σ} (h : Steps body s t)
    (hs : I s) : I t := by
  induction h with
  | refl s => exact hs
  | head hbody _ ih => exact ih ((hturn _ hs).of_yields hbody)

theorem Gives.ite {P : α → Prop} {m m' : Fueled α} {C : Prop} [Decidable C] (hm : m.Gives P)
    (hm' : m'.Gives P) : (if C then m else m').Gives P := by
  split
  · exact hm
  · exact hm'

/-! ## Two runs -/

/-- **Two computations go alike**: with the same fuel both give a result or
neither does, and the results are related. -/
def Rel (R : α → β → Prop) (m : Fueled α) (m' : Fueled β) : Prop :=
  ∀ n, Option.Rel R (m n) (m' n)

theorem rel_pure {R : α → β → Prop} {a : α} {b : β} (h : R a b) :
    Rel R (pure a : Fueled α) (pure b) := fun _ => Option.Rel.some h

theorem Rel.bind {α' β' : Type} {R : α → α' → Prop} {S : β → β' → Prop} {m : Fueled α}
    {m' : Fueled α'} {f : α → Fueled β} {f' : α' → Fueled β'} (hm : Rel R m m')
    (hf : ∀ a a', R a a' → Rel S (f a) (f' a')) :
    Rel S (m >>= f) (m' >>= f') := by
  intro n
  have hrel := hm n
  show Option.Rel S ((m n).bind fun a => f a n) ((m' n).bind fun a => f' a n)
  generalize m n = r, m' n = r' at hrel
  cases hrel with
  | none => exact Option.Rel.none
  | some h => exact hf _ _ h n

theorem Rel.ite {R : α → β → Prop} {m₁ m₂ : Fueled α} {m₁' m₂' : Fueled β}
    {C C' : Prop} [Decidable C]
    [Decidable C'] (hC : C ↔ C') (h₁ : Rel R m₁ m₁') (h₂ : Rel R m₂ m₂') :
    Rel R (if C then m₁ else m₂) (if C' then m₁' else m₂') := by
  by_cases h : C
  · rw [if_pos h, if_pos (hC.mp h)]
    exact h₁
  · rw [if_neg h, if_neg (fun h' => h (hC.mpr h'))]
    exact h₂

/-- **The loop rule for two runs**: what relates the states before a turn
relates them after it, or the results. -/
theorem rel_loop {τ : Type} {S : σ → τ → Prop} {R : α → β → Prop} {body : σ → Fueled (σ ⊕ α)}
    {body' : τ → Fueled (τ ⊕ β)}
    (hbody : ∀ s t, S s t → Rel (Sum.LiftRel S R) (body s) (body' t))
    {s : σ} {t : τ} (hs : S s t) : Rel R (loop body s) (loop body' t) := by
  intro n
  show Option.Rel R (turns body n s) (turns body' n t)
  induction n generalizing s t with
  | zero => exact Option.Rel.none
  | succ n ih =>
    have hrel := hbody s t hs n
    unfold turns
    generalize body s n = r, body' t n = r' at hrel
    cases hrel with
    | none => exact Option.Rel.none
    | some h =>
      cases h with
      | inl hst => exact ih hst
      | inr hab => exact Option.Rel.some hab

/-- A computation and one that gives the same, changed in some way. -/
theorem rel_of_map {R : α → β → Prop} {m : Fueled α} {m' : Fueled β} {g : α → β}
    (hmap : ∀ n, m' n = (m n).map g) (hR : m.Gives fun a => R a (g a)) : Rel R m m' := by
  intro n
  rw [hmap n]
  cases hrun : m n with
  | none => exact Option.Rel.none
  | some a => exact Option.Rel.some (hR n a hrun)

/-- Parts of the results of two runs. -/
theorem Rel.map_run {α' β' : Type} {R : α → β → Prop} {S : α' → β' → Prop} {m : Fueled α}
    {m' : Fueled β} (h : Rel R m m') {f : α → α'} {g : β → β'}
    (hS : ∀ a b, R a b → S (f a) (g b)) (n : ℕ) :
    Option.Rel S ((m n).map f) ((m' n).map g) := by
  have hrel := h n
  generalize m n = r, m' n = r' at hrel
  cases hrel with
  | none => exact Option.Rel.none
  | some hab => exact Option.Rel.some (hS _ _ hab)

/-- Equal parts of them. -/
theorem Rel.map_eq {γ : Type} {R : α → β → Prop} {m : Fueled α} {m' : Fueled β}
    (h : Rel R m m') {f : α → γ}
    {g : β → γ} (heq : ∀ a b, R a b → f a = g b) (n : ℕ) : (m n).map f = (m' n).map g := by
  have hrel := h.map_run heq n
  generalize (m n).map f = r, (m' n).map g = r' at hrel
  cases hrel with
  | none => rfl
  | some hab => exact congrArg some hab

theorem Rel.of_yields {R : α → β → Prop} {m : Fueled α} {m' : Fueled β} {a : α} {b : β}
    (h : Rel R m m')
    (ha : m.Yields a) (hb : m'.Yields b) : R a b := by
  obtain ⟨N, hN⟩ := ha
  obtain ⟨M, hM⟩ := hb
  have hrel := h (max N M)
  rw [hN _ (le_max_left _ _), hM _ (le_max_right _ _)] at hrel
  cases hrel with
  | some hab => exact hab

/-! ## Waiting for ever -/

/-- **The computation waits for ever**: no amount of fuel suffices. -/
def Never (m : Fueled α) : Prop := ∀ n, m n = none

theorem Never.not_yields {m : Fueled α} (h : m.Never) (a : α) : ¬ m.Yields a := by
  rintro ⟨N, hN⟩
  have hrun := hN N le_rfl
  rw [h N] at hrun
  cases hrun

theorem Never.bind {m : Fueled α} (h : m.Never) (f : α → Fueled β) : (m >>= f).Never := by
  intro n
  show (m n).bind (fun a => f a n) = none
  rw [h n]
  rfl

/-- What follows a part that ends may be what waits. -/
theorem Steady.never_bind {m : Fueled α} {f : α → Fueled β} {a : α}
    (hm : m.Steady) (ha : m.Yields a)
    (hf : (f a).Never) : (m >>= f).Never := by
  intro n
  show (m n).bind (fun a => f a n) = none
  cases hrun : m n with
  | none => rfl
  | some b =>
    obtain rfl : b = a := (hm.yields hrun).unique ha
    exact hf n

/-- **The loop rule for divergence**: from every state that meets the
invariant, a turn waits for ever or goes on with the invariant. -/
theorem never_loop {body : σ → Fueled (σ ⊕ α)} (I : σ → Prop) (hbody : ∀ s, (body s).Steady)
    (hturn : ∀ s, I s → (body s).Never ∨ ∃ t, (body s).Yields (Sum.inl t) ∧ I t)
    {s : σ} (hs : I s) :
    (loop body s).Never := by
  intro n
  induction n generalizing s with
  | zero => rfl
  | succ n ih =>
    show (body s n).bind (fun r => r.elim (turns body n) some) = none
    rcases hturn s hs with hnever | ⟨t, ht, hI⟩
    · rw [hnever n]
      rfl
    · cases hrun : body s n with
      | none => rfl
      | some r =>
        obtain rfl : r = Sum.inl t := ((hbody s).yields hrun).unique ht
        exact ih hI

end Fueled
