import JvmMethod.SlotTable
import JvmMethod.Structured

/-!
# Moving the locals of a fragment out of the way

A fragment of code that is put into a method shares the receiver and the
arguments with it, which are the slots below a *fixed* number.  Every other slot
of the fragment is replaced by one that the method does not use: it is allocated
when the slot is first seen, and stays the same for the rest of the fragment.

A slot is told by its number and by the width of the value in it, so that the
same number may stand for a narrow and a wide variable.  A narrow use of a
number that was first used wide goes to the wide variable's slot.
-/

namespace JvmMethod

/-- Which slots of a fragment have moved where. -/
structure LocalShift where
  /-- The slots below are shared with the method. -/
  fixed : Slot
  slots : SlotTable := {}
  deriving DecidableEq

namespace LocalShift

/-- A shift that leaves the receiver and the parameters of a method alone. -/
def ofMethod (flags : AccessFlags) (descriptor : MethodDescriptor) :
    Except Fault LocalShift :=
  (parameterSlots flags descriptor).map fun fixed => { fixed }

/-- The key of a slot with a value of a width of 1 or 2.  The key of a wide
value is right behind the key of a narrow one in the same slot. -/
def key (fixed slot : Slot) (width : Nat) : Nat :=
  2 * slot.toNat - fixed.toNat + width - 1

/-- The shift after the key of a value of a width got a slot.  A wide value
takes the narrow key along, if that is not taken yet. -/
def assign (shift : LocalShift) (key width : Nat) (slot : Slot) : LocalShift :=
  let slots := shift.slots.insert key slot
  if width = 2 && !slots.contains (key - 1) then
    { shift with slots := slots.insert (key - 1) slot }
  else { shift with slots }

/-- Where a slot of the fragment has moved, or moves now. -/
def shift (slot : Slot) (kind : Kind) : Build LocalShift Slot := do
  let state ← Build.read
  if kind = .void then throw .voidLocal
  else if slot < state.fixed then return slot
  else
    let key := key state.fixed slot kind.width
    match state.slots.get? key with
    | some shifted => return shifted
    | none =>
        let shifted ← Build.allocate kind
        Build.change fun state => state.assign key kind.width shifted
        return shifted

/-- The transform that moves the slot of every element. -/
def transform : Transform LocalShift where
  accept element := do
    match element.localSlot? with
    | some (slot, kind) =>
        let shifted ← shift slot kind
        Build.push (element.withLocalSlot shifted)
    | none => Build.push element

/-- A shift has nothing to do before the first element of a fragment and after the
last one. -/
theorem transformElements_transform (fragment : List Element) :
    Build.transformElements fragment transform =
      Build.acceptEach transform fragment :=
  bind_pure (Build.acceptEach transform fragment)

end LocalShift

end JvmMethod
