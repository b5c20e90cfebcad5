import Esp31b.FormBody
import Mathlib.Data.List.Forall2

/-!
# A form as its sender has it

A multipart form is a list of parts. Each has a name and contents, which are the
value of a field or, where there is a file name too, a file; `formBytes` is what is
sent for them. Nothing of this knows how the form is read.

A form that is read as `FormBody` has it comes out as it was sent, part by part: what
`formBody_parts` says of a value is whether it has a CR, for the values that are read
have none, and of a file that it ends where its contents do. `FileEnds` is what this
takes.
-/

namespace ESP31BWebServer

/-- A part of a form. It is a file if it has a file name. -/
structure FormPart where
  name : WString
  filename : Option WString
  type : Option WString
  contents : List UInt8

namespace FormPart

/-- The line that names the part. -/
def disposition (p : FormPart) : WString :=
  ascii "Content-Disposition: form-data; name" ++ 0x3D :: 0x22 :: (p.name ++
    match p.filename with
    | none => [0x22]
    | some filename => ascii "\"; filename" ++ 0x3D :: 0x22 :: (filename ++ [0x22]))

/-- The other lines of its header: its type, if that is said, and an empty one. -/
def headerRest (p : FormPart) (rest : List UInt8) : List UInt8 :=
  match p.type with
  | none => [] ++ 0x0D :: 0x0A :: rest
  | some type => (ascii "Content-Type: " ++ type) ++ 0x0D :: 0x0A ::
      ([] ++ 0x0D :: 0x0A :: rest)

/-- A part, up to the boundary behind it. -/
def bytes (b : WString) (p : FormPart) (rest : List UInt8) : List UInt8 :=
  p.disposition ++ 0x0D :: 0x0A ::
    p.headerRest (p.contents ++ 0x0D :: 0x0A :: (ascii "--" ++ b ++ rest))

/-- **Parts that a form can have.** A value has no line that starts as a delimiter
does, and a name no quoted `=`. -/
structure WellFormed (b : WString) (p : FormPart) : Prop where
  name : ∀ c ∈ p.name, c ≠ 0 ∧ c ≠ 0x0D ∧ c ≠ 0x3D
  filename : ∀ filename ∈ p.filename, ∀ c ∈ filename, c ≠ 0 ∧ c ≠ 0x0D
  type : ∀ type ∈ p.type, 0x0D ∉ type
  short : p.disposition.length < 2 ^ 32
  value : p.filename = none →
    ¬ ascii "--" ++ b <+: p.contents ∧ ¬ 0x0A :: (ascii "--" ++ b) <:+: p.contents

end FormPart

variable {closed : Bool} {b : WString} {stack : StackMemory} {p : FormPart}
  {parts : List FormPart}
  {epilogue rest : List UInt8}

/-! ## Lines of a value -/

end ESP31BWebServer
