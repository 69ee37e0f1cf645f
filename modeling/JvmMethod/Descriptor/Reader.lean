import JvmMethod.Descriptor

/-!
# Reading descriptors

A descriptor shows where it ends, so each reader takes a descriptor off the
front of its input and leaves the rest.  A reader that fails leaves what it did
not look at; it says in a `DescriptorFault` what it met instead.

* `FieldType.length_read_lt`: what a field type leaves is shorter than what it
  was given, which is why the list of parameters ends.
* `ofString`, for each kind of descriptor, wants the whole text.
-/

namespace JvmMethod

/-- Why a text is no descriptor. -/
inductive DescriptorFault where
  | invalidBase (c : Char)
  | missingBase
  | expectedClass
  | unterminatedClass (name : String)
  | className (fault : NameFault)
  | invalidReference (c : Char)
  | missingReference
  | missingField
  | expectedParameters
  | unterminatedParameters
  | leftover (c : Char) (source : String)
  deriving DecidableEq

/-- The wording of a descriptor fault. -/
def DescriptorFault.message : DescriptorFault → String
  | .invalidBase c => "Invalid base type character '" ++ c.toString ++ "'"
  | .missingBase => "Missing base type character"
  | .expectedClass => "Expected object type to start with `L`"
  | .unterminatedClass name => "Missing terminator for 'L" ++ name ++ "'"
  | .className fault => fault.message
  | .invalidReference c =>
      "Invalid reference type character '" ++ c.toString ++ "'"
  | .missingReference => "Missing reference type"
  | .missingField => "Missing field type"
  | .expectedParameters => "Expected '(' for method"
  | .unterminatedParameters => "Expected ')' for method"
  | .leftover c source =>
      "Unexpected leftover input '" ++ c.toString ++ "' in '" ++ source ++ "'"

/-- A descriptor fault as a fault of the method body that the descriptor was
for.  A bad class name is the fault of the name. -/
def DescriptorFault.toFault : DescriptorFault → Fault
  | .className fault => fault.toFault
  | fault => .badDescriptor fault.message

/-- What was read off the front of the input, and what is left of it. -/
abbrev Taken (α : Type) := Except DescriptorFault α × List Char

/-- Changes what was read and leaves the rest alone. -/
def Taken.map {α β : Type} (f : α → β) (taken : Taken α) : Taken β :=
  (taken.1.map f, taken.2)

/-- What was read, if nothing is left of `source`. -/
def Taken.whole {α : Type} (source : String) (taken : Taken α) :
    Except DescriptorFault α :=
  match taken with
  | (.error fault, _) => .error fault
  | (.ok value, []) => .ok value
  | (.ok _, c :: _) => .error (.leftover c source)

/-- Takes a base type. -/
def BaseType.read : List Char → Taken BaseType
  | [] => (.error .missingBase, [])
  | c :: rest =>
      match BaseType.ofLetter? c with
      | some type => (.ok type, rest)
      | none => (.error (.invalidBase c), rest)

/-- Takes the name of a class and its semicolon, after the letter `L`. -/
def BinaryName.readTerminated (input : List Char) : Taken BinaryName :=
  let text := String.ofList (input.takeWhile (· != ';'))
  match input.dropWhile (· != ';') with
  | [] => (.error (.unterminatedClass text), [])
  | _ :: rest => ((BinaryName.ofString text).mapError .className, rest)

/-- Takes the descriptor of a class type. -/
def BinaryName.readDescriptor : List Char → Taken BinaryName
  | [] => (.error .expectedClass, [])
  | 'L' :: rest => BinaryName.readTerminated rest
  | _ :: rest => (.error .expectedClass, rest)

/-- Takes the element type of an array, after its brackets. -/
def RefType.readElement (extraDims : Nat) (input : List Char) : Taken RefType :=
  match input with
  | 'L' :: _ =>
      (BinaryName.readDescriptor input).map (RefType.objectArray extraDims)
  | _ => (BaseType.read input).map (RefType.primitiveArray extraDims)

/-- Takes a reference type. -/
def RefType.read (input : List Char) : Taken RefType :=
  match input with
  | [] => (.error .missingReference, [])
  | 'L' :: _ => (BinaryName.readDescriptor input).map RefType.object
  | '[' :: rest =>
      RefType.readElement (rest.takeWhile (· == '[')).length
        (rest.dropWhile (· == '['))
  | c :: _ => (.error (.invalidReference c), input)

/-- Takes a field type. -/
def FieldType.read (input : List Char) : Taken FieldType :=
  match input with
  | [] => (.error .missingField, [])
  | 'L' :: _ => (RefType.read input).map FieldType.ref
  | '[' :: _ => (RefType.read input).map FieldType.ref
  | _ => (BaseType.read input).map FieldType.base

theorem BaseType.length_read_lt {input : List Char} {type : BaseType}
    (h : (BaseType.read input).1 = .ok type) :
    (BaseType.read input).2.length < input.length := by
  unfold BaseType.read at h ⊢
  split at h
  · cases h
  · split at h <;> simp_all

theorem BinaryName.length_readDescriptor_lt {input : List Char}
    {name : BinaryName} (h : (BinaryName.readDescriptor input).1 = .ok name) :
    (BinaryName.readDescriptor input).2.length < input.length := by
  unfold BinaryName.readDescriptor at h ⊢
  split at h
  · cases h
  · next rest =>
    simp only [BinaryName.readTerminated] at h ⊢
    have := (List.dropWhile_sublist (· != ';') (l := rest)).length_le
    split at h
    · cases h
    · simp_all
      omega
  · cases h

theorem RefType.length_readElement_lt {extraDims : Nat} {input : List Char}
    {type : RefType} (h : (RefType.readElement extraDims input).1 = .ok type) :
    (RefType.readElement extraDims input).2.length < input.length := by
  unfold RefType.readElement at h ⊢
  split at h
  · simp only [Taken.map] at h ⊢
    match h' : (BinaryName.readDescriptor _).1, h with
    | .ok _, _ => exact BinaryName.length_readDescriptor_lt h'
  · simp only [Taken.map] at h ⊢
    match h' : (BaseType.read input).1, h with
    | .ok _, _ => exact BaseType.length_read_lt h'

theorem RefType.length_read_lt {input : List Char} {type : RefType}
    (h : (RefType.read input).1 = .ok type) :
    (RefType.read input).2.length < input.length := by
  unfold RefType.read at h ⊢
  split at h
  · cases h
  · simp only [Taken.map] at h ⊢
    match h' : (BinaryName.readDescriptor _).1, h with
    | .ok _, _ => exact BinaryName.length_readDescriptor_lt h'
  · next rest =>
    have := (List.dropWhile_sublist (· == '[') (l := rest)).length_le
    have := RefType.length_readElement_lt h
    simp only [List.length_cons]
    omega
  · cases h

/-- A field type takes at least one character. -/
theorem FieldType.length_read_lt {input : List Char} {type : FieldType}
    (h : (FieldType.read input).1 = .ok type) :
    (FieldType.read input).2.length < input.length := by
  unfold FieldType.read at h ⊢
  split at h
  · cases h
  · simp only [Taken.map] at h ⊢
    match h' : (RefType.read _).1, h with
    | .ok _, _ => exact RefType.length_read_lt h'
  · simp only [Taken.map] at h ⊢
    match h' : (RefType.read _).1, h with
    | .ok _, _ => exact RefType.length_read_lt h'
  · simp only [Taken.map] at h ⊢
    match h' : (BaseType.read _).1, h with
    | .ok _, _ => exact BaseType.length_read_lt h'

/-- Takes parameter types up to the closing parenthesis, and the parenthesis. -/
def MethodDescriptor.readParameters (input : List Char) :
    Taken (List FieldType) :=
  match input with
  | [] => (.error .unterminatedParameters, [])
  | ')' :: rest => (.ok [], rest)
  | c :: rest =>
      match h : FieldType.read (c :: rest) with
      | (.error fault, left) => (.error fault, left)
      | (.ok type, left) =>
          have shorter : left.length < (c :: rest).length := by
            have := @FieldType.length_read_lt (c :: rest) type (by rw [h])
            rwa [h] at this
          (MethodDescriptor.readParameters left).map (type :: ·)
  termination_by input.length
  decreasing_by exact shorter

/-- Takes a result type. -/
def MethodDescriptor.readResult (input : List Char) :
    Taken (Option FieldType) :=
  match input with
  | 'V' :: rest => (.ok none, rest)
  | _ => (FieldType.read input).map some

/-- Takes a method descriptor. -/
def MethodDescriptor.read : List Char → Taken MethodDescriptor
  | [] => (.error .expectedParameters, [])
  | '(' :: rest =>
      match MethodDescriptor.readParameters rest with
      | (.error fault, rest) => (.error fault, rest)
      | (.ok parameters, rest) =>
          (MethodDescriptor.readResult rest).map
            (MethodDescriptor.mk parameters)
  | _ :: rest => (.error .expectedParameters, rest)

/-- Reads the descriptor of a base type. -/
def BaseType.ofString (text : String) : Except DescriptorFault BaseType :=
  (BaseType.read text.toList).whole text

/-- Reads the descriptor of a class type. -/
def BinaryName.ofDescriptor (text : String) :
    Except DescriptorFault BinaryName :=
  (BinaryName.readDescriptor text.toList).whole text

/-- Reads the descriptor of a reference type. -/
def RefType.ofString (text : String) : Except DescriptorFault RefType :=
  (RefType.read text.toList).whole text

/-- Reads the descriptor of a field type. -/
def FieldType.ofString (text : String) : Except DescriptorFault FieldType :=
  (FieldType.read text.toList).whole text

/-- Reads the descriptor of a method. -/
def MethodDescriptor.ofString (text : String) :
    Except DescriptorFault MethodDescriptor :=
  (MethodDescriptor.read text.toList).whole text

end JvmMethod
