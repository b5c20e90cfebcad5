import Esp31b.CString

/-!
# Base 64

The encoding of RFC 4648, section 4, as the document words it: three octets
are a 24-bit group and are written as the four characters its 6-bit groups
stand for; at the end of the data a group of one or two octets is filled up
with zero bits on the right and the characters that carry no data are
written as `=`. There are no line breaks.
-/

namespace Base64

/-- The 64 characters of the alphabet, by value. -/
def alphabet : List UInt8 :=
  ascii "ABCDEFGHIJKLMNOPQRSTUVWXYZabcdefghijklmnopqrstuvwxyz0123456789+/"

/-- The pad, `=`. -/
def pad : UInt8 := 0x3D

/-- The character of a 6-bit group. -/
def char (v : ℕ) : UInt8 := alphabet.getD v pad

/-- **The base 64 encoding of RFC 4648.** -/
def encode : List UInt8 → List UInt8
  | a :: b :: c :: rest =>
    let n := a.toNat * 2 ^ 16 + b.toNat * 2 ^ 8 + c.toNat
    char (n / 2 ^ 18) :: char (n / 2 ^ 12 % 2 ^ 6) :: char (n / 2 ^ 6 % 2 ^ 6) ::
      char (n % 2 ^ 6) :: encode rest
  | [a, b] =>
    let n := a.toNat * 2 ^ 16 + b.toNat * 2 ^ 8
    [char (n / 2 ^ 18), char (n / 2 ^ 12 % 2 ^ 6), char (n / 2 ^ 6 % 2 ^ 6), pad]
  | [a] =>
    let n := a.toNat * 2 ^ 16
    [char (n / 2 ^ 18), char (n / 2 ^ 12 % 2 ^ 6), pad, pad]
  | [] => []

theorem length_encode (s : List UInt8) : (encode s).length = 4 * ((s.length + 2) / 3) := by
  fun_induction encode s with
  | case1 a b c rest n ih =>
    simp only [List.length_cons, ih]
    omega
  | case2 => simp
  | case3 => simp
  | case4 => rfl

theorem encode_ne_nil {s : List UInt8} (h : s ≠ []) : encode s ≠ [] := by
  have hlen := length_encode s
  have hs := List.length_pos_iff.mpr h
  exact List.ne_nil_of_length_pos (by omega)

/-- What an encoding is written in. -/
theorem mem_encode {s : List UInt8} {x : UInt8} (h : x ∈ encode s) : x ∈ pad :: alphabet := by
  have hchar : ∀ v, char v ∈ pad :: alphabet := by
    intro v
    unfold char
    rw [List.getD_eq_getElem?_getD]
    cases hv : alphabet[v]? with
    | none => exact List.mem_cons_self
    | some y => exact List.mem_cons_of_mem _ (List.mem_of_getElem? hv)
  fun_induction encode s with
  | case1 a b c rest n ih =>
    simp only [List.mem_cons] at h
    rcases h with rfl | rfl | rfl | rfl | h
    · exact hchar _
    · exact hchar _
    · exact hchar _
    · exact hchar _
    · exact ih h
  | case2 a b n =>
    simp only [List.mem_cons, List.not_mem_nil, or_false] at h
    rcases h with rfl | rfl | rfl | rfl
    · exact hchar _
    · exact hchar _
    · exact hchar _
    · exact List.mem_cons_self
  | case3 a n =>
    simp only [List.mem_cons, List.not_mem_nil, or_false] at h
    rcases h with rfl | rfl | rfl | rfl
    · exact hchar _
    · exact hchar _
    · exact List.mem_cons_self
    · exact List.mem_cons_self
  | case4 => cases h

/-- What no character of an encoding is. -/
theorem alphabet_plain :
    ∀ y ∈ pad :: alphabet, isspace y = false ∧ y ≠ 0 ∧ y ≠ 0x3A ∧ y ≠ 0x7B := by
  decide

/-- **An encoding is printable**: no blank, no line break, no NUL. -/
theorem printable_of_mem_encode {s : List UInt8} {x : UInt8} (h : x ∈ encode s) :
    isspace x = false ∧ x ≠ 0 :=
  ⟨(alphabet_plain x (mem_encode h)).1, (alphabet_plain x (mem_encode h)).2.1⟩

end Base64
