import JvmMethod.AccessFlags
import JvmMethod.Kind

/-!
# Local variable slots

A method has 65535 local slots at most, numbered from zero.  The receiver and
the arguments come first.  Whoever hands out slots after them keeps the number
of the next free slot, and moves it by the width of what was asked for.
-/

namespace JvmMethod

/-- The number of a local variable slot. -/
abbrev Slot := UInt16

/-- The next free slot once a value of the kind has been put at `top`. -/
def claimSlot (top : Slot) (kind : Kind) : Except Fault Slot :=
  if kind = .void then .error .voidLocal
  else if top.toNat + kind.width ≤ 65535 then
    .ok (top + UInt16.ofNat kind.width)
  else .error .localsOverflow

/-- The next free slot is behind the value. -/
theorem toNat_of_claimSlot {top next : Slot} {kind : Kind}
    (h : claimSlot top kind = .ok next) :
    next.toNat = top.toNat + kind.width := by
  simp only [claimSlot] at h
  split at h
  · cases h
  split at h
  · next hroom =>
    cases h
    have : kind.width ≤ 2 := by cases kind <;> decide
    rw [UInt16.toNat_add, UInt16.toNat_ofNat']
    omega
  · cases h

/-- How many slots the receiver and the parameters of a method take. -/
def parameterSlots (flags : AccessFlags) (descriptor : MethodDescriptor) :
    Except Fault Slot :=
  let length := descriptor.parameterLength flags.hasReceiver
  if length ≤ 65535 then .ok (UInt16.ofNat length) else .error .localsOverflow

end JvmMethod
