import JvmMethod.Element

/-!
# Finished method bodies

What a class file holds for a method: the code array, how many local slots it
needs, and the tables of exception handlers, source lines and local variables.
All positions are offsets into the code.
-/

namespace JvmMethod

/-- The offset of a byte of the code. -/
abbrev CodeOffset := UInt16

/-- Exceptions of a class (or all) that happen from `start` up to `stop` are
handled at `handler`. -/
structure HandlerEntry where
  start : CodeOffset
  stop : CodeOffset
  handler : CodeOffset
  class? : Option BinaryName
  deriving DecidableEq

/-- The code from `start` on comes from a line of the source. -/
structure LineEntry where
  start : CodeOffset
  line : UInt16
  deriving DecidableEq

/-- A local variable with its type, from `start` on for `length` bytes. -/
structure VariableEntry where
  start : CodeOffset
  length : UInt16
  name : UnqualifiedName
  type : FieldType
  slot : Slot
  deriving DecidableEq

/-- A local variable with its generic signature, from `start` on for `length`
bytes. -/
structure VariableTypeEntry where
  start : CodeOffset
  length : UInt16
  name : UnqualifiedName
  signature : String
  slot : Slot
  deriving DecidableEq

/-- A finished method body. -/
structure MethodBody where
  code : Array UInt8
  maxLocals : UInt16
  /-- The offsets of the labels that were placed, by label number. -/
  labelOffsets : Array (Option CodeOffset)
  handlers : Array HandlerEntry
  lines : Array LineEntry
  localVariables : Array VariableEntry
  localVariableTypes : Array VariableTypeEntry
  deriving DecidableEq

/-- The offset of a label, if it was placed. -/
def MethodBody.labelOffset? (body : MethodBody) (label : Label) :
    Option CodeOffset :=
  body.labelOffsets[label.index]?.join

end JvmMethod
