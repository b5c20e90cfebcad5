import Mathlib.Data.List.Basic
import Mathlib.Tactic.Ring

/-!
# lwIP packet buffers

A packet buffer holds a run of payload, the number of references to it, and
in `tot_len` the length of the payload from it to the end of its chain. A
chain is the list of buffers reached through `next`, and the null pointer is
the empty list.

`tot_len` is a 16-bit field: `pbuf_cat` adds to it without looking, so the
chain invariant `tot_len = len + (next ? next->tot_len : 0)` is one of the
numbers modulo `2 ^ 16`, and of the payload only while the whole chain fits
(`Pbuf.WellFormed.cat`).
-/

/-- `struct pbuf`, without the pointer to the next one. -/
structure Pbuf where
  payload : List UInt8
  totLen : UInt16
  ref : ℕ
  deriving DecidableEq, Repr

namespace Pbuf

/-- The field `len`. -/
def len (p : Pbuf) : ℕ := p.payload.length

/-- The bytes of a chain. -/
def bytes (c : List Pbuf) : List UInt8 := c.flatMap payload

/-- The number of bytes of a chain. -/
def total (c : List Pbuf) : ℕ := (bytes c).length

/-- A chain as the stack delivers it: one buffer for each run of payload,
each referenced once. -/
def chain : List (List UInt8) → List Pbuf
  | [] => []
  | d :: ds => ⟨d, UInt16.ofNat (d.length + ds.flatten.length), 1⟩ :: chain ds

/-- `pbuf_cat(h, t)`: the second chain's length is added to every `tot_len`
of the first, whose last buffer is linked to it. -/
def pbufCat (h t : List Pbuf) : List Pbuf :=
  match t with
  | [] => h
  | q :: _ => h.map (fun p => { p with totLen := p.totLen + q.totLen }) ++ t

/-- `pbuf_ref(p)`. -/
def pbufRef : List Pbuf → List Pbuf
  | [] => []
  | p :: c => { p with ref := p.ref + 1 } :: c

/-- `pbuf_free(p)`: references are dropped along the chain as long as they
were the last ones. What is left of the chain is returned. -/
def pbufFree : List Pbuf → List Pbuf
  | [] => []
  | p :: c => if p.ref - 1 = 0 then pbufFree c else { p with ref := p.ref - 1 } :: c

/-- **A chain held by one owner**: every buffer is referenced once, none is
empty, and `tot_len` is the number of bytes from it on. -/
def WellFormed : List Pbuf → Prop
  | [] => True
  | p :: c => p.ref = 1 ∧ p.payload ≠ [] ∧ p.totLen.toNat = total (p :: c) ∧ WellFormed c

@[simp] theorem bytes_nil : bytes [] = [] := rfl

@[simp] theorem bytes_cons (p : Pbuf) (c : List Pbuf) : bytes (p :: c) = p.payload ++ bytes c :=
  rfl

@[simp] theorem bytes_append (c d : List Pbuf) : bytes (c ++ d) = bytes c ++ bytes d := by
  simp [bytes]

@[simp] theorem total_nil : total [] = 0 := rfl

@[simp] theorem total_cons (p : Pbuf) (c : List Pbuf) : total (p :: c) = p.len + total c := by
  simp [total, len]

@[simp] theorem total_append (c d : List Pbuf) : total (c ++ d) = total c + total d := by
  simp [total]

@[simp] theorem bytes_chain (ds : List (List UInt8)) : bytes (chain ds) = ds.flatten := by
  induction ds with
  | nil => rfl
  | cons d ds ih => rw [chain, bytes_cons, ih, List.flatten_cons]

/-- A delivered chain is well formed when its length fits the field. -/
theorem wellFormed_chain {ds : List (List UInt8)} (hne : ∀ d ∈ ds, d ≠ [])
    (hfit : ds.flatten.length < 2 ^ 16) : WellFormed (chain ds) := by
  induction ds with
  | nil => trivial
  | cons d ds ih =>
    rw [List.flatten_cons, List.length_append] at hfit
    refine ⟨rfl, hne d (by simp), ?_, ih (fun e he => hne e (by simp [he])) (by omega)⟩
    rw [total, bytes_cons, bytes_chain, List.length_append]
    exact UInt16.toNat_ofNat_of_lt' hfit

/-- The head of a well-formed chain shows the chain's length. -/
theorem WellFormed.totLen {p : Pbuf} {c : List Pbuf} (h : WellFormed (p :: c)) :
    p.totLen.toNat = total (p :: c) := h.2.2.1

theorem WellFormed.len_pos {p : Pbuf} {c : List Pbuf} (h : WellFormed (p :: c)) : 0 < p.len :=
  List.length_pos_of_ne_nil h.2.1

/-- **Concatenation keeps a chain well formed while the sum fits.** -/
theorem WellFormed.cat {h t : List Pbuf} (hh : WellFormed h) (ht : WellFormed t)
    (hfit : total h + total t < 2 ^ 16) : WellFormed (pbufCat h t) := by
  cases t with
  | nil => exact hh
  | cons q t =>
    induction h with
    | nil => exact ht
    | cons p h ih =>
      obtain ⟨href, hne, htot, hwf⟩ := hh
      rw [total_cons] at hfit htot
      have hq := ht.totLen
      have hrest := ih hwf (by omega)
      simp only [pbufCat, List.map_cons, List.cons_append] at hrest ⊢
      refine ⟨href, hne, ?_, hrest⟩
      have hmap : total (h.map (fun p => { p with totLen := p.totLen + q.totLen })) =
          total h := by
        simp [total, bytes, List.flatMap_map]
      rw [UInt16.toNat_add, hq, htot, Nat.mod_eq_of_lt (by omega)]
      simp only [total_cons, total_append, hmap, len]
      omega

theorem bytes_pbufCat (h t : List Pbuf) : bytes (pbufCat h t) = bytes h ++ bytes t := by
  cases t with
  | nil => simp [pbufCat]
  | cons q t =>
    rw [pbufCat, bytes_append]
    simp [bytes, List.flatMap_map]

/-- **The hand-over of a chain to its second buffer**: with a reference taken
on the second buffer, freeing the first leaves exactly the rest. -/
theorem free_ref {p q : Pbuf} {c : List Pbuf} (hp : p.ref = 1) (hq : q.ref = 1) :
    pbufFree (p :: pbufRef (q :: c)) = q :: c := by
  obtain ⟨payload, totLen, ref⟩ := q
  simp only at hq
  simp [pbufFree, pbufRef, hp, hq]

theorem WellFormed.free_ref {p q : Pbuf} {c : List Pbuf} (h : WellFormed (p :: q :: c)) :
    pbufFree (p :: pbufRef (q :: c)) = q :: c :=
  Pbuf.free_ref h.1 h.2.2.2.1

theorem WellFormed.drop {c : List Pbuf} (h : WellFormed c) (i : ℕ) : WellFormed (c.drop i) := by
  induction i generalizing c with
  | zero => exact h
  | succ i ih =>
    cases c with
    | nil => exact h
    | cons p c => exact ih h.2.2.2

/-- Every buffer of a well-formed chain shows the length from it on. -/
theorem WellFormed.totLen_getElem {ps : List Pbuf} (h : WellFormed ps) {i : ℕ}
    (hi : i < ps.length) :
    ps[i].totLen.toNat = total (ps.drop i) := by
  have hdrop := h.drop i
  rw [List.drop_eq_getElem_cons hi] at hdrop ⊢
  exact hdrop.totLen

/-- What well-formedness looks at in a buffer. -/
def shape (p : Pbuf) : ℕ × ℕ × UInt16 := (p.ref, p.len, p.totLen)

theorem total_eq_of_shape {c d : List Pbuf} (h : c.map shape = d.map shape) :
    total c = total d := by
  induction c generalizing d with
  | nil =>
    rw [List.map_nil, eq_comm, List.map_eq_nil_iff] at h
    rw [h]
  | cons p c ih =>
    cases d with
    | nil => cases h
    | cons q d =>
      rw [List.map_cons, List.map_cons, List.cons.injEq] at h
      have hlen : p.len = q.len := congrArg (fun s => s.2.1) h.1
      rw [total_cons, total_cons, ih h.2, hlen]

/-- Well-formedness does not look at the bytes. -/
theorem WellFormed.of_shape {c d : List Pbuf} (hc : WellFormed c)
    (h : c.map shape = d.map shape) :
    WellFormed d := by
  induction c generalizing d with
  | nil =>
    rw [List.map_nil, eq_comm, List.map_eq_nil_iff] at h
    rw [h]
    trivial
  | cons p c ih =>
    cases d with
    | nil => cases h
    | cons q d =>
      have htotal := total_eq_of_shape h
      rw [List.map_cons, List.map_cons, List.cons.injEq] at h
      obtain ⟨href, hlen, htot⟩ : p.ref = q.ref ∧ p.len = q.len ∧ p.totLen = q.totLen := by
        simpa only [shape, Prod.mk.injEq] using h.1
      obtain ⟨hone, hne, hsum, hrest⟩ := hc
      refine ⟨href ▸ hone, ?_, htot ▸ htotal ▸ hsum, ih hrest h.2⟩
      rw [← List.length_pos_iff] at hne ⊢
      exact hne.trans_eq hlen

/-- Bytes put into one buffer of a chain. -/
theorem bytes_set {c : List Pbuf} {i : ℕ} (hi : i < c.length) (p : Pbuf) :
    bytes (c.set i p) = bytes (c.take i) ++ p.payload ++ bytes (c.drop (i + 1)) := by
  rw [List.set_eq_take_append_cons_drop, if_pos hi, bytes_append, bytes_cons, List.append_assoc]

theorem bytes_eq {ps : List Pbuf} {i : ℕ} (hi : i < ps.length) :
    bytes ps = bytes (ps.take i) ++ ps[i].payload ++ bytes (ps.drop (i + 1)) := by
  rw [← bytes_set hi, List.set_getElem_self]

end Pbuf
