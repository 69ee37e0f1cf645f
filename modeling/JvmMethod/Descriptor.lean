import JvmMethod.Name

/-!
# Types as class files describe them

A field has a base type or a reference type; a method has a list of parameter
types and a result type (none for `void`).  Each type has one written form, its
*descriptor*: `I` for `int`, `Lp/C;` for the class `p/C`, `[[J` for arrays of
arrays of `long`, `(IJ)V` for a method.
-/

namespace JvmMethod

/-- The types of values that are no references. -/
inductive BaseType where
  | byte | char | double | float | int | long | short | boolean
  deriving DecidableEq

/-- The types of references.  An array has one dimension more than its
`extraDims`. -/
inductive RefType where
  | object (name : BinaryName)
  | objectArray (extraDims : Nat) (name : BinaryName)
  | primitiveArray (extraDims : Nat) (element : BaseType)
  deriving DecidableEq

/-- The types of fields, local variables and parameters. -/
inductive FieldType where
  | base (type : BaseType)
  | ref (type : RefType)
  deriving DecidableEq

/-- The parameters and the result of a method.  No result is `void`. -/
structure MethodDescriptor where
  parameters : List FieldType
  result : Option FieldType
  deriving DecidableEq

namespace BaseType

/-- The letter of a base type. -/
def letter : BaseType → Char
  | .byte => 'B'
  | .char => 'C'
  | .double => 'D'
  | .float => 'F'
  | .int => 'I'
  | .long => 'J'
  | .short => 'S'
  | .boolean => 'Z'

/-- The base type with a given letter. -/
def ofLetter? : Char → Option BaseType
  | 'B' => some .byte
  | 'C' => some .char
  | 'D' => some .double
  | 'F' => some .float
  | 'I' => some .int
  | 'J' => some .long
  | 'S' => some .short
  | 'Z' => some .boolean
  | _ => none

theorem ofLetter?_letter (type : BaseType) :
    ofLetter? type.letter = some type := by
  cases type <;> rfl

/-- How many local slots a value of the type takes. -/
def width : BaseType → Nat
  | .double | .long => 2
  | _ => 1

/-- The descriptor of a base type. -/
def chars (type : BaseType) : List Char :=
  [type.letter]

end BaseType

/-- The descriptor of a class type. -/
def BinaryName.descriptorChars (name : BinaryName) : List Char :=
  'L' :: name.text.toList ++ [';']

/-- The descriptor of a reference type. -/
def RefType.chars : RefType → List Char
  | .object name => name.descriptorChars
  | .objectArray extraDims name =>
      List.replicate (extraDims + 1) '[' ++ name.descriptorChars
  | .primitiveArray extraDims element =>
      List.replicate (extraDims + 1) '[' ++ element.chars

namespace FieldType

/-- The type of 32-bit integers. -/
def int : FieldType := .base .int

/-- The type of 64-bit integers. -/
def long : FieldType := .base .long

/-- The type of single precision numbers. -/
def float : FieldType := .base .float

/-- The type of double precision numbers. -/
def double : FieldType := .base .double

/-- The type of the instances of a class. -/
def object (name : BinaryName) : FieldType := .ref (.object name)

/-- How many local slots a value of the type takes. -/
def width : FieldType → Nat
  | .base type => type.width
  | .ref _ => 1

/-- The descriptor of a field type. -/
def chars : FieldType → List Char
  | .base type => type.chars
  | .ref type => type.chars

end FieldType

namespace MethodDescriptor

/-- How many local slots the arguments of a call take, with or without the
receiver. -/
def parameterLength (descriptor : MethodDescriptor) (hasReceiver : Bool) :
    Nat :=
  descriptor.parameters.foldl (fun length type => length + type.width)
    (if hasReceiver then 1 else 0)

/-- The part of a method descriptor that follows the parameters. -/
def resultChars : Option FieldType → List Char
  | none => ['V']
  | some type => type.chars

/-- The descriptor of a method. -/
def chars (descriptor : MethodDescriptor) : List Char :=
  '(' :: descriptor.parameters.flatMap FieldType.chars ++ ')' ::
    resultChars descriptor.result

end MethodDescriptor

/-- The written form of a base type. -/
def BaseType.render (type : BaseType) : String :=
  String.ofList type.chars

/-- The written form of a class type. -/
def BinaryName.renderDescriptor (name : BinaryName) : String :=
  String.ofList name.descriptorChars

/-- The written form of a reference type. -/
def RefType.render (type : RefType) : String :=
  String.ofList type.chars

/-- The written form of a field type. -/
def FieldType.render (type : FieldType) : String :=
  String.ofList type.chars

/-- The written form of a method descriptor. -/
def MethodDescriptor.render (descriptor : MethodDescriptor) : String :=
  String.ofList descriptor.chars

end JvmMethod
