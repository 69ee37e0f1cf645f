/-!
# Comparisons and conditions

A conditional branch compares an `int` with zero, two `int`s, two references,
or a reference with null.  The first two know six comparisons, the other two
only equality.  Every condition has a negation, which holds exactly when the
condition does not.
-/

namespace JvmMethod

/-- How two numbers may compare. -/
inductive OrdComparison where
  | eq | ge | gt | le | lt | ne
  deriving DecidableEq

/-- How two references may compare. -/
inductive EqComparison where
  | eq | ne
  deriving DecidableEq

/-- What a conditional branch tests. -/
inductive Condition where
  /-- The number on top of the stack against zero. -/
  | zero (comparison : OrdComparison)
  /-- The two numbers on top of the stack. -/
  | ints (comparison : OrdComparison)
  /-- The two references on top of the stack. -/
  | refs (comparison : EqComparison)
  /-- The reference on top of the stack against null. -/
  | null (comparison : EqComparison)
  deriving DecidableEq

namespace OrdComparison

/-- All comparisons of numbers. -/
def all : List OrdComparison := [.eq, .ge, .gt, .le, .lt, .ne]

/-- The letters that a mnemonic ends in. -/
def suffix : OrdComparison → String
  | .eq => "eq"
  | .ge => "ge"
  | .gt => "gt"
  | .le => "le"
  | .lt => "lt"
  | .ne => "ne"

/-- The comparison with given letters. -/
def ofSuffix? (text : String) : Option OrdComparison :=
  all.find? fun comparison => comparison.suffix == text

/-- The comparison that holds when this one does not. -/
def negate : OrdComparison → OrdComparison
  | .eq => .ne
  | .ge => .lt
  | .gt => .le
  | .le => .gt
  | .lt => .ge
  | .ne => .eq

/-- The place of a comparison in the order of the opcodes. -/
def rank : OrdComparison → UInt8
  | .eq => 0
  | .ne => 1
  | .lt => 2
  | .ge => 3
  | .gt => 4
  | .le => 5

@[simp] theorem negate_negate (comparison : OrdComparison) :
    comparison.negate.negate = comparison := by
  cases comparison <;> rfl

end OrdComparison

namespace EqComparison

/-- The comparison that holds when this one does not. -/
def negate : EqComparison → EqComparison
  | .eq => .ne
  | .ne => .eq

@[simp] theorem negate_negate (comparison : EqComparison) :
    comparison.negate.negate = comparison := by
  cases comparison <;> rfl

end EqComparison

namespace Condition

/-- The condition that holds when this one does not. -/
def negate : Condition → Condition
  | .zero comparison => .zero comparison.negate
  | .ints comparison => .ints comparison.negate
  | .refs comparison => .refs comparison.negate
  | .null comparison => .null comparison.negate

/-- The mnemonic of the branch on a condition. -/
def mnemonic : Condition → String
  | .zero comparison => "if" ++ comparison.suffix
  | .ints comparison => "if_icmp" ++ comparison.suffix
  | .refs .eq => "if_acmpeq"
  | .refs .ne => "if_acmpne"
  | .null .eq => "ifnull"
  | .null .ne => "ifnonnull"

/-- The opcode of the branch on a condition. -/
def opcode : Condition → UInt8
  | .zero comparison => 0x99 + comparison.rank
  | .ints comparison => 0x9f + comparison.rank
  | .refs .eq => 0xa5
  | .refs .ne => 0xa6
  | .null .eq => 0xc6
  | .null .ne => 0xc7

@[simp] theorem negate_negate (condition : Condition) :
    condition.negate.negate = condition := by
  cases condition <;> simp [negate]

end Condition

end JvmMethod
