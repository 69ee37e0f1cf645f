import JvmMethod.Descriptor.Reader

/-!
# Kinds of values

An instruction does not care for the exact type of a value, only for its
*kind*: one of the base types, a reference, or nothing at all (`void`, for a
method that returns none).  Kinds say how many local slots a value takes and
which of the typed instructions (`iload`, `lload`, …) work on it.

* `Kind.ofDescriptor` reads the kind off a descriptor, `Kind.ofSignature` off a
  generic signature, of which only the base types have a single letter.
* The typed instructions know only five kinds; `Kind.computational` is the one
  of them that a kind is handled as.
-/

namespace JvmMethod

/-- The kind of a value in a local variable or on the operand stack. -/
inductive Kind where
  | byte | short | char | int | float | long | double | reference | boolean
  | void
  deriving DecidableEq

namespace Kind

/-- The name of a kind. -/
def name : Kind → String
  | .byte => "byte"
  | .short => "short"
  | .char => "char"
  | .int => "int"
  | .float => "float"
  | .long => "long"
  | .double => "double"
  | .reference => "reference"
  | .boolean => "boolean"
  | .void => "void"

/-- How many local slots a value of the kind takes. -/
def width : Kind → Nat
  | .void => 0
  | .long | .double => 2
  | _ => 1

/-- The kind of a base type. -/
def ofBase : BaseType → Kind
  | .byte => .byte
  | .char => .char
  | .double => .double
  | .float => .float
  | .int => .int
  | .long => .long
  | .short => .short
  | .boolean => .boolean

/-- The kind of a field type. -/
def ofField : FieldType → Kind
  | .base type => ofBase type
  | .ref _ => .reference

/-- The kind that a field descriptor, or `V`, stands for. -/
def ofDescriptor (text : String) : Except DescriptorFault Kind :=
  if text = "V" then .ok .void else (FieldType.ofString text).map ofField

/-- The kind that a generic signature stands for: a single letter may be a base
type or `V`, and all else is a reference. -/
def ofSignature (text : String) : Kind :=
  match text.toList with
  | ['V'] => .void
  | [c] => ((BaseType.ofLetter? c).map ofBase).getD .reference
  | _ => .reference

/-- The kind as which the typed instructions handle a value. -/
def computational : Kind → Kind
  | .byte | .short | .char | .boolean => .int
  | kind => kind

/-- The place of a kind in the order of the typed instructions, which is
`int`, `long`, `float`, `double`, `reference` in every family of them. -/
def family? (kind : Kind) : Option UInt8 :=
  match kind.computational with
  | .int => some 0
  | .long => some 1
  | .float => some 2
  | .double => some 3
  | .reference => some 4
  | _ => none

/-- The letter that the mnemonics of the typed instructions start with. -/
def letter? (kind : Kind) : Option Char :=
  match kind.computational with
  | .int => some 'i'
  | .long => some 'l'
  | .float => some 'f'
  | .double => some 'd'
  | .reference => some 'a'
  | _ => none

/-- The kind whose typed instructions start with a letter. -/
def ofLetter? : Char → Option Kind
  | 'i' => some .int
  | 'l' => some .long
  | 'f' => some .float
  | 'd' => some .double
  | 'a' => some .reference
  | _ => none

/-- A mnemonic of the typed instructions: the letter of the kind, if it has
one, and what the family is called. -/
def mnemonic (kind : Kind) (family : String) : String :=
  match kind.letter? with
  | some letter => letter.toString ++ family
  | none => family

end Kind

end JvmMethod
