import JvmMethod.Fault
import JvmMethod.Text.Parts

/-!
# Names in class files

An *unqualified* name (of a field, a method or a local variable) is not empty
and has none of the characters `.`, `;`, `[` and `/`.  A *binary* name (of a
class) is one or more unqualified names joined by `/`.  A value of either type
carries the proof that its text is such a name.
-/

namespace JvmMethod

/-- Why a text is no name. -/
inductive NameFault where
  | emptyUnqualified
  | illegalCharacter (name : String)
  | emptyBinary
  deriving DecidableEq

/-- The wording of a name fault. -/
def NameFault.message : NameFault → String
  | .emptyUnqualified => "Unqualified name '' is empty"
  | .illegalCharacter name =>
      "Unqualified name '" ++ name ++ "' contains an illegal character"
  | .emptyBinary => "Binary name '' is empty"

/-- A name fault as a fault of the method body that the name was for. -/
def NameFault.toFault (fault : NameFault) : Fault :=
  .malformedName fault.message

/-- The characters that separate the parts of names and descriptors, and
therefore stand in no unqualified name. -/
def isNameDelimiter (c : Char) : Bool :=
  c == '.' || c == ';' || c == '[' || c == '/'

/-- The characters spell an unqualified name. -/
def IsUnqualified (chars : List Char) : Prop :=
  chars ≠ [] ∧ chars.any isNameDelimiter = false

instance (chars : List Char) : Decidable (IsUnqualified chars) := by
  unfold IsUnqualified; infer_instance

/-- The characters spell a binary name. -/
def IsBinary (chars : List Char) : Prop :=
  ∀ part ∈ partsAt '/' chars, IsUnqualified part

instance (chars : List Char) : Decidable (IsBinary chars) := by
  unfold IsBinary; infer_instance

/-- A name of a field, a method or a local variable. -/
structure UnqualifiedName where
  text : String
  isUnqualified : IsUnqualified text.toList
  deriving DecidableEq

/-- A name of a class. -/
structure BinaryName where
  text : String
  isBinary : IsBinary text.toList
  deriving DecidableEq

/-- Why characters that spell no unqualified name do not. -/
def unqualifiedFault (chars : List Char) : NameFault :=
  if chars = [] then .emptyUnqualified
  else .illegalCharacter (String.ofList chars)

/-- Why characters that spell no binary name do not: there are none, or else
the first of the parts that is no unqualified name tells. -/
def binaryFault (chars : List Char) : NameFault :=
  if chars = [] then .emptyBinary
  else
    match (partsAt '/' chars).find? fun part => ¬ IsUnqualified part with
    | some part => unqualifiedFault part
    | none => .emptyBinary

/-- Decimal digits spell an unqualified name. -/
theorem isUnqualified_toDigits (number : Nat) :
    IsUnqualified (Nat.toDigits 10 number) := by
  refine ⟨Nat.toDigits_ne_nil, List.any_eq_false.2 fun c hc h => ?_⟩
  have isDigit := Nat.isDigit_of_mem_toDigits (by decide) (by decide) hc
  simp only [isNameDelimiter, Bool.or_eq_true, beq_iff_eq] at h
  rcases h with ((rfl | rfl) | rfl) | rfl <;> cases isDigit

namespace UnqualifiedName

/-- Reads an unqualified name. -/
def ofString (text : String) : Except NameFault UnqualifiedName :=
  if h : IsUnqualified text.toList then .ok ⟨text, h⟩
  else .error (unqualifiedFault text.toList)

/-- The name that is a number. -/
def ofNumber (number : Nat) : UnqualifiedName where
  text := String.ofList (Nat.toDigits 10 number)
  isUnqualified := by simpa using isUnqualified_toDigits number

/-- The name of the receiver. -/
def this : UnqualifiedName := ⟨"this", by decide +kernel⟩

end UnqualifiedName

namespace BinaryName

/-- Reads a binary name. -/
def ofString (text : String) : Except NameFault BinaryName :=
  if h : IsBinary text.toList then .ok ⟨text, h⟩
  else .error (binaryFault text.toList)

/-- The class of all exceptions. -/
def exception : BinaryName := ⟨"java/lang/Exception", by decide +kernel⟩

/-- The root of all classes. -/
def object : BinaryName := ⟨"java/lang/Object", by decide +kernel⟩

/-- The class of character strings. -/
def string : BinaryName := ⟨"java/lang/String", by decide +kernel⟩

/-- The class of everything that can be thrown. -/
def throwable : BinaryName := ⟨"java/lang/Throwable", by decide +kernel⟩

end BinaryName

end JvmMethod
