import Esp31b.Block
import Mathlib.Data.Nat.Basic

/-!
# Messages of the domain name system

A decoder that follows RFC 1035: a header with four counts, that many questions
and records, and nothing behind them. A name is a sequence of labels that ends
in a zero octet, or in a pointer to a name before it.

The decoder of each part takes the message and an offset, and returns the part
and the offset behind it. None of them looks at the header again, so a part is
decoded alike in two messages that agree behind it (`Dns.Agree`), also where
names point backwards.
-/

namespace Dns

/-- A name is the list of its labels. -/
abbrev Name := List (List UInt8)

/-- The octets of a name that is written out. -/
def octets (n : Name) : ℕ := (n.map (·.length + 1)).sum + 1

/-- The header, the flags one by one. -/
structure Header where
  id : ℕ
  qr : Bool
  opcode : ℕ
  aa : Bool
  tc : Bool
  rd : Bool
  ra : Bool
  z : ℕ
  rcode : ℕ
  qdcount : ℕ
  ancount : ℕ
  nscount : ℕ
  arcount : ℕ
  deriving DecidableEq, Repr

structure Question where
  name : Name
  type : ℕ
  cls : ℕ
  deriving DecidableEq, Repr

structure Record where
  name : Name
  type : ℕ
  cls : ℕ
  ttl : ℕ
  rdata : List UInt8
  deriving DecidableEq, Repr

structure Message where
  header : Header
  questions : List Question
  answers : List Record
  authority : List Record
  additional : List Record
  deriving DecidableEq, Repr

/-! ## The decoder -/

/-- What is behind the header, where names can be. -/
def headerSize : ℕ := 12

/-- The octet at an offset. -/
def octet (m : List UInt8) (p : ℕ) : Option (ℕ × ℕ) := (m[p]?).map fun b => (b.toNat, p + 1)

/-- Two octets, the high one first. -/
def word (m : List UInt8) (p : ℕ) : Option (ℕ × ℕ) := do
  let (high, p) ← octet m p
  let (low, p) ← octet m p
  return (high * 2 ^ 8 + low, p)

/-- Four octets. -/
def doubleWord (m : List UInt8) (p : ℕ) : Option (ℕ × ℕ) := do
  let (high, p) ← word m p
  let (low, p) ← word m p
  return (high * 2 ^ 16 + low, p)

def header (m : List UInt8) (p : ℕ) : Option (Header × ℕ) := do
  let (id, p) ← word m p
  let (high, p) ← octet m p
  let (low, p) ← octet m p
  let (qdcount, p) ← word m p
  let (ancount, p) ← word m p
  let (nscount, p) ← word m p
  let (arcount, p) ← word m p
  return (⟨id, high / 128 = 1, high / 8 % 16, high / 4 % 2 = 1, high / 2 % 2 = 1, high % 2 = 1,
    low / 128 = 1, low / 16 % 8, low % 16, qdcount, ancount, nscount, arcount⟩, p)

/-- **The labels at an offset**, of a name that starts at `start`: a pointer
goes to something before that, but not into the header. -/
def labels (m : List UInt8) (start p : ℕ) : Option (Name × ℕ) :=
  if h : p < m.length then
    let length := m[p].toNat
    if length = 0 then some ([], p + 1)
    else if length < 64 then
      match Block.read m (p + 1) length with
      | none => none
      | some label => (labels m start (p + 1 + length)).map fun (rest, q) => (label :: rest, q)
    else if length < 192 then none
    else
      match m[p + 1]? with
      | none => none
      | some low =>
        let target := (length - 192) * 2 ^ 8 + low.toNat
        if _ : headerSize ≤ target ∧ target < start then
          (labels m target target).map fun (rest, _) => (rest, p + 2)
        else none
  else none
termination_by (start, m.length - p)

/-- A name has 255 octets at most. -/
def name (m : List UInt8) (p : ℕ) : Option (Name × ℕ) := do
  let (n, p) ← labels m p p
  if octets n ≤ 255 then return (n, p) else none

def question (m : List UInt8) (p : ℕ) : Option (Question × ℕ) := do
  let (n, p) ← name m p
  let (type, p) ← word m p
  let (cls, p) ← word m p
  return (⟨n, type, cls⟩, p)

def record (m : List UInt8) (p : ℕ) : Option (Record × ℕ) := do
  let (n, p) ← name m p
  let (type, p) ← word m p
  let (cls, p) ← word m p
  let (ttl, p) ← doubleWord m p
  let (rdlength, p) ← word m p
  let rdata ← Block.read m p rdlength
  return (⟨n, type, cls, ttl, rdata⟩, p + rdlength)

/-- A section of so many entries. -/
def entries {α : Type*} (entry : ℕ → Option (α × ℕ)) : ℕ → ℕ → Option (List α × ℕ)
  | 0, p => some ([], p)
  | count + 1, p => do
    let (e, p) ← entry p
    let (es, p) ← entries entry count p
    return (e :: es, p)

/-- **A message**, up to its last octet. -/
def decode (m : List UInt8) : Option Message := do
  let (h, p) ← header m 0
  let (questions, p) ← entries (question m) h.qdcount p
  let (answers, p) ← entries (record m) h.ancount p
  let (authority, p) ← entries (record m) h.nscount p
  let (additional, p) ← entries (record m) h.arcount p
  if p = m.length then return ⟨h, questions, answers, authority, additional⟩ else none

variable {m m' : List UInt8} {p q start : ℕ} {n : Name}

/-! ## The parts of a message -/

theorem octet_of_getElem? {b : UInt8} (h : m[p]? = some b) :
    octet m p = some (b.toNat, p + 1) := by
  unfold octet
  rw [h]
  rfl

theorem word_of_getElem? {high low : UInt8} (hhigh : m[p]? = some high)
    (hlow : m[p + 1]? = some low) :
    word m p = some (high.toNat * 2 ^ 8 + low.toNat, p + 2) := by
  unfold word
  rw [octet_of_getElem? hhigh, Option.bind_eq_bind, Option.bind_some]
  dsimp only
  rw [octet_of_getElem? hlow]
  rfl

/-- What is decoded lies in the message. -/
theorem octet_bounds {v : ℕ} (h : octet m p = some (v, q)) : q = p + 1 ∧ q ≤ m.length := by
  obtain ⟨b, hb, heq⟩ := Option.map_eq_some_iff.mp h
  cases heq
  exact ⟨rfl, (List.getElem?_eq_some_iff.mp hb).1⟩

theorem word_bounds {v : ℕ} (h : word m p = some (v, q)) : q = p + 2 ∧ q ≤ m.length := by
  obtain ⟨⟨high, p₁⟩, hhigh, h⟩ := Option.bind_eq_some_iff.mp h
  obtain ⟨⟨low, p₂⟩, hlow, h⟩ := Option.bind_eq_some_iff.mp h
  obtain ⟨rfl, -⟩ := octet_bounds hhigh
  obtain ⟨rfl, hle⟩ := octet_bounds hlow
  cases h
  exact ⟨rfl, hle⟩

theorem header_bounds {h : Header} (hh : header m p = some (h, q)) : q = p + headerSize ∧
    q ≤ m.length := by
  obtain ⟨⟨id, p₁⟩, hid, hh⟩ := Option.bind_eq_some_iff.mp hh
  obtain ⟨⟨high, p₂⟩, hhigh, hh⟩ := Option.bind_eq_some_iff.mp hh
  obtain ⟨⟨low, p₃⟩, hlow, hh⟩ := Option.bind_eq_some_iff.mp hh
  obtain ⟨⟨qdcount, p₄⟩, hqd, hh⟩ := Option.bind_eq_some_iff.mp hh
  obtain ⟨⟨ancount, p₅⟩, han, hh⟩ := Option.bind_eq_some_iff.mp hh
  obtain ⟨⟨nscount, p₆⟩, hns, hh⟩ := Option.bind_eq_some_iff.mp hh
  obtain ⟨⟨arcount, p₇⟩, har, hh⟩ := Option.bind_eq_some_iff.mp hh
  obtain ⟨rfl, -⟩ := word_bounds hid
  obtain ⟨rfl, -⟩ := octet_bounds hhigh
  obtain ⟨rfl, -⟩ := octet_bounds hlow
  obtain ⟨rfl, -⟩ := word_bounds hqd
  obtain ⟨rfl, -⟩ := word_bounds han
  obtain ⟨rfl, -⟩ := word_bounds hns
  obtain ⟨rfl, hle⟩ := word_bounds har
  cases hh
  exact ⟨rfl, hle⟩

theorem entries_zero {α : Type*} {entry : ℕ → Option (α × ℕ)} {es : List α} :
    entries entry 0 p = some (es, q) ↔ es = [] ∧ q = p := by
  rw [entries, Option.some.injEq, Prod.mk.injEq]
  exact and_congr eq_comm eq_comm

theorem entries_succ {α : Type*} {entry : ℕ → Option (α × ℕ)} {es : List α} {count : ℕ} :
    entries entry (count + 1) p = some (es, q) ↔
      ∃ e p₁ es', entry p = some (e, p₁) ∧ entries entry count p₁ = some (es', q) ∧
      es = e :: es' := by
  rw [entries]
  constructor
  · intro h
    obtain ⟨⟨e, p₁⟩, he, h⟩ := Option.bind_eq_some_iff.mp h
    obtain ⟨⟨es', p₂⟩, hes, h⟩ := Option.bind_eq_some_iff.mp h
    cases h
    exact ⟨e, p₁, es', he, hes, rfl⟩
  · rintro ⟨e, p₁, es', he, hes, rfl⟩
    rw [he, Option.bind_eq_bind, Option.bind_some]
    dsimp only
    rw [hes]
    rfl

/-- One entry. -/
theorem entries_one {α : Type*} {entry : ℕ → Option (α × ℕ)} {es : List α} :
    entries entry 1 p = some (es, q) ↔ ∃ e, entry p = some (e, q) ∧ es = [e] := by
  rw [entries_succ]
  constructor
  · rintro ⟨e, p₁, es', he, hes, rfl⟩
    obtain ⟨rfl, rfl⟩ := entries_zero.mp hes
    exact ⟨e, he, rfl⟩
  · rintro ⟨e, he, rfl⟩
    exact ⟨e, q, [], he, entries_zero.mpr ⟨rfl, rfl⟩, rfl⟩

/-- **The sections of a message** lie one behind the other, up to its end. -/
theorem decode_eq_some_iff {msg : Message} : decode m = some msg ↔
    ∃ p₀ p₁ p₂ p₃, header m 0 = some (msg.header, p₀) ∧
      entries (question m) msg.header.qdcount p₀ = some (msg.questions, p₁) ∧
      entries (record m) msg.header.ancount p₁ = some (msg.answers, p₂) ∧
      entries (record m) msg.header.nscount p₂ = some (msg.authority, p₃) ∧
      entries (record m) msg.header.arcount p₃ = some (msg.additional, m.length) := by
  unfold decode
  constructor
  · intro h
    obtain ⟨⟨h₀, p₀⟩, hheader, h⟩ := Option.bind_eq_some_iff.mp h
    obtain ⟨⟨questions, p₁⟩, hquestions, h⟩ := Option.bind_eq_some_iff.mp h
    obtain ⟨⟨answers, p₂⟩, hanswers, h⟩ := Option.bind_eq_some_iff.mp h
    obtain ⟨⟨authority, p₃⟩, hauthority, h⟩ := Option.bind_eq_some_iff.mp h
    obtain ⟨⟨additional, p₄⟩, hadditional, h⟩ := Option.bind_eq_some_iff.mp h
    dsimp only at h
    split at h
    · rename_i hend
      cases h
      exact ⟨p₀, p₁, p₂, p₃, hheader, hquestions, hanswers, hauthority, hend ▸ hadditional⟩
    · cases h
  · rintro ⟨p₀, p₁, p₂, p₃, hheader, hquestions, hanswers, hauthority, hadditional⟩
    simp only [hheader, hquestions, hanswers, hauthority, hadditional, Option.bind_eq_bind,
      Option.bind_some, if_true]
    rfl

/-! ## Where a name ends -/

/-- **The labels of a name**, one at a time. -/
theorem labels_cases (h : labels m start p = some (n, q)) : ∃ hp : p < m.length,
    (m[p] = 0 ∧ n = [] ∧ q = p + 1) ∨
    (∃ label rest, m[p].toNat ≠ 0 ∧ m[p].toNat < 64 ∧
      Block.read m (p + 1) m[p].toNat = some label ∧
      labels m start (p + 1 + m[p].toNat) = some (rest, q) ∧ n = label :: rest) ∨
    ∃ low target r, m[p + 1]? = some low ∧ 192 ≤ m[p].toNat ∧
      target = (m[p].toNat - 192) * 2 ^ 8 + low.toNat ∧
      headerSize ≤ target ∧ target < start ∧ labels m target target = some (n, r) ∧
        q = p + 2 := by
  rw [labels] at h
  split at h
  · rename_i hp
    refine ⟨hp, ?_⟩
    dsimp only at h
    split_ifs at h with hzero hlabel hreserved
    · cases h
      exact Or.inl ⟨UInt8.toNat_inj.mp hzero, rfl, rfl⟩
    · split at h
      · cases h
      · rename_i label hread
        obtain ⟨⟨rest, q'⟩, hrest, heq⟩ := Option.map_eq_some_iff.mp h
        cases heq
        exact Or.inr (Or.inl ⟨label, rest, hzero, hlabel, hread, hrest, rfl⟩)
    · split at h
      · cases h
      · rename_i low hlow
        split at h
        · rename_i htarget
          obtain ⟨⟨n', r⟩, hrest, heq⟩ := Option.map_eq_some_iff.mp h
          cases heq
          exact Or.inr (Or.inr ⟨low, _, r, hlow, by omega, rfl, htarget.1,
            htarget.2, hrest, rfl⟩)
        · cases h
  · cases h

/-- **Induction over a name that was decoded.** -/
theorem labels_induction {P : ℕ → ℕ → Name → ℕ → Prop}
    (zero : ∀ start p, m[p]? = some 0 → P start p [] (p + 1))
    (label : ∀ start p b label rest q, m[p]? = some b → b.toNat ≠ 0 → b.toNat < 64 →
      Block.read m (p + 1) b.toNat = some label → P start (p + 1 + b.toNat) rest q →
      P start p (label :: rest) q)
    (pointer : ∀ start p b low n r, m[p]? = some b → m[p + 1]? = some low → 192 ≤ b.toNat →
      headerSize ≤ (b.toNat - 192) * 2 ^ 8 + low.toNat →
      (b.toNat - 192) * 2 ^ 8 + low.toNat < start →
      P ((b.toNat - 192) * 2 ^ 8 + low.toNat) ((b.toNat - 192) * 2 ^ 8 + low.toNat) n r →
      P start p n (p + 2))
    (h : labels m start p = some (n, q)) : P start p n q := by
  induction start using Nat.strong_induction_on generalizing p n q with
  | _ start ihStart =>
    induction hk : m.length - p using Nat.strong_induction_on generalizing p n q with
    | _ k ihLength =>
      obtain ⟨hp, hcases⟩ := labels_cases h
      have hget : m[p]? = some m[p] := List.getElem?_eq_getElem hp
      obtain ⟨hzero, rfl, rfl⟩ | ⟨l, rest, hne, hlt, hread, hrest, rfl⟩ |
        ⟨low, target, r, hlow, hge, rfl, hheader, hbefore, hrest, rfl⟩ := hcases
      · exact zero start p (hget.trans (congrArg some hzero))
      · exact label start p m[p] l rest q hget hne hlt hread (ihLength _ (by omega) hrest rfl)
      · exact pointer start p m[p] low n r hget hlow hge hheader hbefore
          (ihStart _ hbefore hrest)

/-- The other way round: what a name is decoded to, one label at a time. -/
theorem labels_zero (h : m[p]? = some 0) : labels m start p = some ([], p + 1) := by
  obtain ⟨hp, hb⟩ := List.getElem?_eq_some_iff.mp h
  rw [labels, dif_pos hp]
  dsimp only
  rw [hb]
  rfl

theorem labels_label {b : UInt8} {label : List UInt8} {rest : Name} (h : m[p]? = some b)
    (hne : b.toNat ≠ 0)
    (hlt : b.toNat < 64) (hread : Block.read m (p + 1) b.toNat = some label)
    (hrest : labels m start (p + 1 + b.toNat) = some (rest, q)) : labels m start p =
      some (label :: rest, q) := by
  obtain ⟨hp, rfl⟩ := List.getElem?_eq_some_iff.mp h
  rw [labels, dif_pos hp]
  dsimp only
  rw [if_neg hne, if_pos hlt, hread]
  dsimp only
  rw [hrest]
  rfl

theorem labels_pointer {b low : UInt8} {r target : ℕ} (h : m[p]? = some b)
    (hlow : m[p + 1]? = some low)
    (hge : 192 ≤ b.toNat) (htarget : (b.toNat - 192) * 2 ^ 8 + low.toNat = target)
    (hheader : headerSize ≤ target)
    (hbefore : target < start) (hrest : labels m target target = some (n, r)) :
    labels m start p = some (n, p + 2) := by
  obtain ⟨hp, rfl⟩ := List.getElem?_eq_some_iff.mp h
  rw [labels, dif_pos hp]
  dsimp only
  rw [if_neg (by omega), if_neg (by omega), if_neg (by omega), hlow]
  dsimp only
  rw [htarget, dif_pos ⟨hheader, hbefore⟩, hrest]
  rfl

/-- The labels are a name if they are not too many. -/
theorem name_of_labels (h : labels m p p = some (n, q)) (hfits : octets n ≤ 255) :
    name m p = some (n, q) := by
  unfold name
  rw [h, Option.bind_eq_bind, Option.bind_some]
  exact if_pos hfits

/-- A name is somewhere in the message. -/
theorem name_bounds (h : name m p = some (n, q)) :
    labels m p p = some (n, q) ∧ p < m.length := by
  obtain ⟨⟨n', q'⟩, hlabels, hfits⟩ := Option.bind_eq_some_iff.mp h
  dsimp only at hfits
  split at hfits
  · cases hfits
    exact ⟨hlabels, (labels_cases hlabels).1⟩
  · cases hfits

theorem name_of_question {d : Question} (h : question m p = some (d, q)) :
    ∃ r, name m p = some (d.name, r) := by
  obtain ⟨⟨n, r⟩, hn, hrest⟩ := Option.bind_eq_some_iff.mp h
  obtain ⟨⟨type, p₂⟩, -, hrest⟩ := Option.bind_eq_some_iff.mp hrest
  obtain ⟨⟨cls, p₃⟩, -, hr⟩ := Option.bind_eq_some_iff.mp hrest
  cases hr
  exact ⟨r, hn⟩

/-- **Behind the last octet** there is no record. -/
theorem entries_record_end {count : ℕ} {es : List Record}
    (h : entries (record m) count m.length = some (es, q)) :
    count = 0 ∧ q = m.length := by
  cases count with
  | zero => exact ⟨rfl, (entries_zero.mp h).2⟩
  | succ count =>
    obtain ⟨e, p₁, es', he, -, -⟩ := entries_succ.mp h
    obtain ⟨⟨n, r⟩, hn, -⟩ := Option.bind_eq_some_iff.mp he
    exact absurd (name_bounds hn).2 (Nat.lt_irrefl _)

/-! ## Messages that agree -/

/-- **The same behind the header**, as far as the first message goes. -/
def Agree (m m' : List UInt8) : Prop := ∀ p b, headerSize ≤ p → m[p]? = some b → m'[p]? = some b

/-- Another header, and more behind the message. -/
theorem agree_append {h h' : List UInt8} (hh : h.length = headerSize)
    (hh' : h'.length = headerSize)
    (body tail : List UInt8) : Agree (h ++ body) (h' ++ body ++ tail) := by
  intro p b hp hb
  rw [List.getElem?_append_right (by omega)] at hb
  rw [List.append_assoc, List.getElem?_append_right (by omega), hh', ← hh]
  exact List.getElem?_append_left (List.getElem?_eq_some_iff.mp hb).1 ▸ hb

theorem Agree.octet (h : Agree m m') (hp : headerSize ≤ p) {v : ℕ}
    (hv : octet m p = some (v, q)) :
    Dns.octet m' p = some (v, q) := by
  obtain ⟨b, hb, heq⟩ := Option.map_eq_some_iff.mp hv
  rw [octet_of_getElem? (h p b hp hb), heq]

theorem Agree.word (h : Agree m m') (hp : headerSize ≤ p) {v : ℕ}
    (hv : word m p = some (v, q)) :
    Dns.word m' p = some (v, q) := by
  obtain ⟨⟨high, p₁⟩, hhigh, hrest⟩ := Option.bind_eq_some_iff.mp hv
  obtain ⟨⟨low, p₂⟩, hlow, hr⟩ := Option.bind_eq_some_iff.mp hrest
  cases hr
  obtain ⟨rfl, -⟩ := octet_bounds hhigh
  have hlow' := h.octet (by omega) hlow
  unfold Dns.word
  rw [h.octet hp hhigh, Option.bind_eq_bind, Option.bind_some]
  dsimp only
  rw [hlow']
  rfl

theorem Agree.read (h : Agree m m') (hp : headerSize ≤ p) {k : ℕ} (hk : 0 < k) {d : List UInt8}
    (hd : Block.read m p k = some d) : Block.read m' p k = some d := by
  have hfits := Block.read_isSome.mp (Option.isSome_of_mem hd)
  have hget : ∀ i (_ : i < k), m'[p + i]? = some (m[p + i]) := fun i hi =>
    h _ _ (by omega) (List.getElem?_eq_getElem _)
  have hfits' : p + k ≤ m'.length := by
    obtain ⟨hlt, -⟩ := List.getElem?_eq_some_iff.mp (hget (k - 1) (by omega))
    omega
  rw [Block.read_eq hfits] at hd
  cases hd
  rw [Block.read_eq hfits', Option.some.injEq]
  refine List.ext_getElem? fun i => ?_
  rw [List.getElem?_take, List.getElem?_take, List.getElem?_drop, List.getElem?_drop]
  split
  · rename_i hi
    rw [hget i hi, List.getElem?_eq_getElem]
  · rfl

theorem Agree.labels (h : Agree m m') (hp : headerSize ≤ p)
    (hn : labels m start p = some (n, q)) :
    Dns.labels m' start p = some (n, q) ∧ p < q := by
  refine labels_induction
    (P := fun start p n q => headerSize ≤ p → Dns.labels m' start p = some (n, q) ∧ p < q)
    ?_ ?_ ?_ hn hp
  · intro start p hb hp
    exact ⟨labels_zero (h p 0 hp hb), by omega⟩
  · intro start p b label rest q hb hne hlt hread ih hp
    obtain ⟨hrest, hq⟩ := ih (by omega)
    exact ⟨labels_label (h p b hp hb) hne hlt (h.read (by omega) (by omega) hread)
      hrest, by omega⟩
  · intro start p b low n r hb hlow hge hheader hbefore ih hp
    obtain ⟨hrest, -⟩ := ih hheader
    exact ⟨labels_pointer (h p b hp hb) (h (p + 1) low (by omega) hlow)
      hge rfl hheader hbefore hrest, by omega⟩

theorem Agree.name (h : Agree m m') (hp : headerSize ≤ p) (hn : name m p = some (n, q)) :
    Dns.name m' p = some (n, q) ∧ p < q := by
  obtain ⟨⟨n', q'⟩, hlabels, hn⟩ := Option.bind_eq_some_iff.mp hn
  obtain ⟨hlabels, hq⟩ := h.labels hp hlabels
  dsimp only at hn
  split at hn
  · rename_i hfits
    cases hn
    exact ⟨name_of_labels hlabels hfits, hq⟩
  · cases hn

/-- **A question** is decoded alike. -/
theorem Agree.question (h : Agree m m') (hp : headerSize ≤ p) {d : Question}
    (hd : question m p = some (d, q)) :
    Dns.question m' p = some (d, q) := by
  obtain ⟨⟨n, p₁⟩, hn, hrest⟩ := Option.bind_eq_some_iff.mp hd
  obtain ⟨⟨type, p₂⟩, htype, hrest⟩ := Option.bind_eq_some_iff.mp hrest
  obtain ⟨⟨cls, p₃⟩, hcls, hr⟩ := Option.bind_eq_some_iff.mp hrest
  cases hr
  obtain ⟨hn', hlt⟩ := h.name hp hn
  have htype' := h.word (by omega) htype
  have hcls' := h.word (by have := (word_bounds htype).1; omega) hcls
  unfold Dns.question
  rw [hn', Option.bind_eq_bind, Option.bind_some]
  dsimp only
  rw [htype', Option.bind_eq_bind, Option.bind_some]
  dsimp only
  rw [hcls']
  rfl

end Dns
