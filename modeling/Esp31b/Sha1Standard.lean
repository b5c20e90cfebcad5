import Esp31b.BlockHash
import Mathlib.Data.BitVec

/-!
# SHA-1

The hash function as its standard words it, FIPS 180: eighty rounds on five words for every
block of sixty-four octets, each round with a word of the schedule that the block is expanded
to, and a message that is padded with a one bit, zeros and its length in bits.
-/

namespace Fips180

/-- A word is rotated to the left. -/
def rotl (n : ℕ) (x : UInt32) : UInt32 := ⟨x.toBitVec.rotateLeft n⟩

/-- Four octets as a word, the highest first. -/
def word (b₀ b₁ b₂ b₃ : UInt8) : UInt32 :=
  b₀.toUInt32 <<< 24 ||| b₁.toUInt32 <<< 16 ||| b₂.toUInt32 <<< 8 ||| b₃.toUInt32

/-- A word of a block. -/
def messageWord (block : List UInt8) (t : ℕ) : UInt32 :=
  word (block.getD (4 * t) 0) (block.getD (4 * t + 1) 0) (block.getD (4 * t + 2) 0)
    (block.getD (4 * t + 3) 0)

/-- **The schedule** of a block. -/
def schedule (block : List UInt8) (t : ℕ) : UInt32 :=
  if t < 16 then messageWord block t
  else rotl 1 (schedule block (t - 3) ^^^ schedule block (t - 8) ^^^ schedule block (t - 14) ^^^
    schedule block (t - 16))

/-- The function of a round. -/
def f (t : ℕ) (b c d : UInt32) : UInt32 :=
  if t < 20 then (b &&& c) ||| (~~~b &&& d)
  else if t < 40 then b ^^^ c ^^^ d
  else if t < 60 then (b &&& c) ||| (b &&& d) ||| (c &&& d)
  else b ^^^ c ^^^ d

/-- The constant of a round. -/
def k (t : ℕ) : UInt32 :=
  if t < 20 then 0x5A827999
  else if t < 40 then 0x6ED9EBA1
  else if t < 60 then 0x8F1BBCDC
  else 0xCA62C1D6

/-- The five words. -/
structure Vars where
  a : UInt32
  b : UInt32
  c : UInt32
  d : UInt32
  e : UInt32
  deriving DecidableEq

/-- A round. -/
def step (block : List UInt8) (v : Vars) (t : ℕ) : Vars where
  a := rotl 5 v.a + f t v.b v.c v.d + v.e + schedule block t + k t
  b := v.a
  c := rotl 30 v.b
  d := v.c
  e := v.d

/-- So many rounds. -/
def rounds (block : List UInt8) (h : Vars) : ℕ → Vars
  | 0 => h
  | t + 1 => step block (rounds block h t) t

/-- **A block is hashed.** -/
def compress (h : Vars) (block : List UInt8) : Vars :=
  let v := rounds block h 80
  ⟨h.a + v.a, h.b + v.b, h.c + v.c, h.d + v.d, h.e + v.e⟩

/-- The words at the start. -/
def initial : Vars := ⟨0x67452301, 0xEFCDAB89, 0x98BADCFE, 0x10325476, 0xC3D2E1F0⟩

/-- The octets of a number, the highest first. -/
def octets (n x : ℕ) : List UInt8 :=
  (List.range n).map fun i => UInt8.ofNat (x / 256 ^ (n - 1 - i))

/-- How many zeros are between the one bit and the length. -/
def zeros (length : ℕ) : ℕ := (119 - length % 64) % 64

/-- **The padding** of a message of so many octets. -/
def padding (length : ℕ) : List UInt8 :=
  0x80 :: List.replicate (zeros length) 0 ++ octets 8 (8 * length)

/-- The octets of the five words. -/
def digest (v : Vars) : List UInt8 :=
  octets 4 v.a.toNat ++ octets 4 v.b.toNat ++ octets 4 v.c.toNat ++ octets 4 v.d.toNat ++
    octets 4 v.e.toNat

/-- **The hash of a message.** -/
def sha1 (message : List UInt8) : List UInt8 :=
  digest (BlockHash.absorb 64 compress initial (message ++ padding message.length)).1

end Fips180
