import JvmMethod.Label

/-!
# What can go wrong with a method body

Every operation that can fail says why with a `Fault`.  A fault carries the
cause (which label, which count, which two numbers disagreed); the wording is
in `Fault.message` alone.
-/

namespace JvmMethod

/-- Why a method body, or a part of one, could not be made. -/
inductive Fault where
  /-- Reading or writing failed outside of the method body. -/
  | io (text : String)
  /-- A local variable cannot hold a value of the void kind. -/
  | voidLocal
  /-- The terminal's next free slot moved from `expected` to `found` while a
  block with slots of its own was open over it. -/
  | localSlotInterference (expected found : UInt16)
  /-- There is no slot left below 65536. -/
  | localsOverflow
  /-- The label is mentioned but was never placed. -/
  | unboundLabel (label : Label)
  /-- The label already has a position. -/
  | labelAlreadyBound (label : Label)
  /-- The target is too far away for a branch with two bytes of offset. -/
  | branchOffsetOverflow (label : Label) (offset : Int)
  /-- The code array is longer than the 65535 bytes a method may have. -/
  | methodCodeOverflow (length : Nat)
  /-- The scope of a local variable ends before it starts. -/
  | invalidLocalScope (start stop : Label)
  /-- A table switch from `low` on has no target, or too many for its keys. -/
  | invalidSwitch (low : Int32) (count : Nat)
  /-- The text is no descriptor. -/
  | badDescriptor (text : String)
  /-- The text is no name. -/
  | malformedName (text : String)
  deriving DecidableEq

/-- The wording of a fault. -/
def Fault.message : Fault → String
  | .io text => "I/O error: " ++ text
  | .voidLocal => "illegal local of void type"
  | .localSlotInterference expected found =>
      "interference in local variable slot management (expected top local "
        ++ toString expected.toNat ++ ", found " ++ toString found.toNat ++ ")"
  | .localsOverflow => "local variable slots overflow 16 bits"
  | .unboundLabel label =>
      "label " ++ label.text ++ " is referenced but not placed"
  | .labelAlreadyBound label => "label " ++ label.text ++ " is placed twice"
  | .branchOffsetOverflow label offset =>
      "branch to " ++ label.text ++ " has offset " ++ toString offset
        ++ " which does not fit in 16 bits"
  | .methodCodeOverflow length =>
      "method code is " ++ toString length ++ " bytes long (max is 65535)"
  | .invalidLocalScope start stop =>
      "local variable scope " ++ start.text ++ ".." ++ stop.text
        ++ " is inverted"
  | .invalidSwitch low count =>
      "tableswitch starting at " ++ toString low.toInt ++ " cannot have "
        ++ toString count ++ " targets"
  | .badDescriptor text => "bad descriptor: " ++ text
  | .malformedName text => "malformed name: " ++ text

/-- A step and what follows it succeed together. -/
theorem bind_eq_ok {ε α β : Type} {step : Except ε α} {next : α → Except ε β}
    {result : β} :
    (step >>= next) = .ok result ↔
      ∃ middle, step = .ok middle ∧ next middle = .ok result := by
  cases step <;> simp [bind, Except.bind]

end JvmMethod
