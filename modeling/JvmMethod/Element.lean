import JvmMethod.Comparison
import JvmMethod.Locals
import JvmMethod.Operator

/-!
# Code elements

A method body is written as a list of *elements*.  Most are instructions; the
rest, the *pseudo-elements*, place a label, give a source line, or describe an
exception handler or a local variable, and take no room in the code.

Elements mention positions by label.  The type is parametric in what stands for
a label: `Element` has the labels of a method body, and a text that is being
read has names that are not labels yet.  `Element.mapM` goes through the
mentions in the order of `Element.labels`.
-/

namespace JvmMethod

/-- The constants that a single instruction of up to three bytes loads. -/
inductive Constant where
  | null
  | int (value : Int16)
  | long0 | long1 | float0 | float1 | float2 | double0 | double1
  deriving DecidableEq

/-- An instruction that may continue elsewhere than behind itself. -/
inductive Branch (ℓ : Type) where
  /-- Continues at the target if the condition holds, else behind itself. -/
  | test (condition : Condition) (target : ℓ)
  | goto (target : ℓ)
  /-- Continues at the target with the number that the switched value has,
  counted from `low`. -/
  | tableSwitch (default : ℓ) (low : Int32) (targets : List ℓ)
  /-- Continues at the target with the switched value as its key. -/
  | lookupSwitch (default : ℓ) (targets : List (Int32 × ℓ))
  deriving DecidableEq

/-- A range of code whose exceptions of a class (or all of them) are handled at
a label. -/
structure ExceptionHandler (ℓ : Type) where
  tryStart : ℓ
  tryStop : ℓ
  handler : ℓ
  class? : Option BinaryName
  deriving DecidableEq

/-- A named local variable with its type, and where it lives. -/
structure LocalVariable (ℓ : Type) where
  slot : Slot
  name : UnqualifiedName
  type : FieldType
  start : ℓ
  stop : ℓ
  deriving DecidableEq

/-- A named local variable with its generic signature, and where it lives. -/
structure LocalVariableType (ℓ : Type) where
  slot : Slot
  name : UnqualifiedName
  signature : String
  start : ℓ
  stop : ℓ
  deriving DecidableEq

/-- An element of a method body, with `ℓ` for its labels. -/
inductive ElementOf (ℓ : Type) where
  | load (kind : Kind) (slot : Slot)
  | store (kind : Kind) (slot : Slot)
  | increment (slot : Slot) (amount : Int16)
  | constant (value : Constant)
  | operator (instruction : Operator)
  | branch (instruction : Branch ℓ)
  | methodReturn (kind : Kind)
  | athrow
  | label (placed : ℓ)
  | line (number : UInt16)
  | handler (entry : ExceptionHandler ℓ)
  | localVariable (entry : LocalVariable ℓ)
  | localVariableType (entry : LocalVariableType ℓ)
  deriving DecidableEq

/-- An element of a method body. -/
abbrev Element := ElementOf Label

/-- Where control may go from an element. -/
inductive ControlFlow where
  /-- Only to what follows. -/
  | next
  /-- To what follows or elsewhere. -/
  | fork
  /-- Never to what follows. -/
  | leave
  deriving DecidableEq

namespace Branch

variable {ℓ : Type}

/-- Where control may go from a branch. -/
def flow : Branch ℓ → ControlFlow
  | .test .. => .fork
  | .goto .. | .tableSwitch .. | .lookupSwitch .. => .leave

/-- The targets of a branch, the default of a switch first. -/
def targets : Branch ℓ → List ℓ
  | .test _ target => [target]
  | .goto target => [target]
  | .tableSwitch default _ targets => default :: targets
  | .lookupSwitch default targets => default :: targets.map Prod.snd

/-- Replaces every target, in the order of `targets`. -/
def mapM {m : Type → Type} [Monad m] {ℓ' : Type} (f : ℓ → m ℓ') :
    Branch ℓ → m (Branch ℓ')
  | .test condition target => return .test condition (← f target)
  | .goto target => return .goto (← f target)
  | .tableSwitch default low targets =>
      return .tableSwitch (← f default) low (← targets.mapM f)
  | .lookupSwitch default targets =>
      return .lookupSwitch (← f default)
        (← targets.mapM fun (key, target) => return (key, ← f target))

end Branch

namespace ElementOf

variable {ℓ : Type}

/-- Does the element take no room in the code? -/
def isPseudo : ElementOf ℓ → Bool
  | .label _ | .line _ | .handler _ | .localVariable _
  | .localVariableType _ => true
  | _ => false

/-- Is the element the place of a label? -/
def isLabel : ElementOf ℓ → Bool
  | .label _ => true
  | _ => false

/-- Where control may go from an element. -/
def flow : ElementOf ℓ → ControlFlow
  | .branch instruction => instruction.flow
  | .methodReturn _ | .athrow => .leave
  | _ => .next

/-- The labels that an element mentions, in the order in which it is written. -/
def labels : ElementOf ℓ → List ℓ
  | .branch instruction => instruction.targets
  | .label placed => [placed]
  | .handler entry => [entry.tryStart, entry.tryStop, entry.handler]
  | .localVariable entry => [entry.start, entry.stop]
  | .localVariableType entry => [entry.start, entry.stop]
  | _ => []

/-- Replaces every label, in the order of `labels`. -/
def mapM {m : Type → Type} [Monad m] {ℓ' : Type} (f : ℓ → m ℓ') :
    ElementOf ℓ → m (ElementOf ℓ')
  | .load kind slot => return .load kind slot
  | .store kind slot => return .store kind slot
  | .increment slot amount => return .increment slot amount
  | .constant value => return .constant value
  | .operator instruction => return .operator instruction
  | .branch instruction => return .branch (← instruction.mapM f)
  | .methodReturn kind => return .methodReturn kind
  | .athrow => return .athrow
  | .label placed => return .label (← f placed)
  | .line number => return .line number
  | .handler ⟨tryStart, tryStop, start, class?⟩ =>
      return .handler ⟨← f tryStart, ← f tryStop, ← f start, class?⟩
  | .localVariable ⟨slot, name, type, start, stop⟩ =>
      return .localVariable ⟨slot, name, type, ← f start, ← f stop⟩
  | .localVariableType ⟨slot, name, signature, start, stop⟩ =>
      return .localVariableType ⟨slot, name, signature, ← f start, ← f stop⟩

/-- The local slot that an element is about, and the kind of the value there. -/
def localSlot? : ElementOf ℓ → Option (Slot × Kind)
  | .load kind slot => some (slot, kind)
  | .store kind slot => some (slot, kind)
  | .increment slot _ => some (slot, .int)
  | .localVariable entry => some (entry.slot, Kind.ofField entry.type)
  | .localVariableType entry => some (entry.slot, Kind.ofSignature entry.signature)
  | _ => none

/-- The element moved to another local slot, if it is about one. -/
def withLocalSlot (slot : Slot) : ElementOf ℓ → ElementOf ℓ
  | .load kind _ => .load kind slot
  | .store kind _ => .store kind slot
  | .increment _ amount => .increment slot amount
  | .localVariable entry => .localVariable { entry with slot }
  | .localVariableType entry => .localVariableType { entry with slot }
  | element => element

end ElementOf

end JvmMethod
