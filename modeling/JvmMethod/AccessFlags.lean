/-!
# Access flags of methods

A method carries sixteen bits of flags, of which twelve have a meaning.  The
only one that matters for the body is `static`: without it, the method has a
receiver in its first local slot.
-/

namespace JvmMethod

/-- The access flags of a method, one bit each. -/
structure AccessFlags where
  bits : UInt16
  deriving DecidableEq

namespace AccessFlags

/-- Everybody may call the method. -/
def accPublic : AccessFlags := ⟨0x0001⟩

/-- The method has no receiver. -/
def accStatic : AccessFlags := ⟨0x0008⟩

/-- All flags that have a meaning: public, private, protected, static, final,
synchronized, bridge, varargs, native, abstract, strict and synthetic. -/
def defined : AccessFlags := ⟨0x1dff⟩

/-- The flags of either. -/
def union (a b : AccessFlags) : AccessFlags := ⟨a.bits ||| b.bits⟩

/-- The flags that have a meaning, without the rest. -/
def truncate (flags : AccessFlags) : AccessFlags :=
  ⟨flags.bits &&& defined.bits⟩

/-- Do all the flags have a meaning? -/
def isDefined (flags : AccessFlags) : Bool :=
  flags.truncate == flags

/-- Does a method with the flags have a receiver? -/
def hasReceiver (flags : AccessFlags) : Bool :=
  flags.bits &&& accStatic.bits == 0

end AccessFlags

end JvmMethod
