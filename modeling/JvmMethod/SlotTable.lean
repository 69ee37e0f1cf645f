import JvmMethod.Locals

/-!
# Tables of slots

A partial map from small numbers to local slots, kept as an array that grows to
hold what is put into it: to the key, and at least to twice its size.  An entry
is one more than the slot that it stands for, so that zeros are entries too, and
stand for no slot.

* `slotOf?_entryOf`: every slot can be read back from its entry.
* `get?_insert`: reading gives what was written last.
* `capacity_grow`: how the array grows.
-/

namespace JvmMethod

/-- A map from keys to slots. -/
structure SlotTable where
  entries : Array UInt32 := #[]
  deriving DecidableEq

namespace SlotTable

/-- The entry that stands for a slot. -/
def entryOf (slot : Slot) : UInt32 :=
  slot.toUInt32 + 1

/-- The slot that an entry stands for. -/
def slotOf? (entry : UInt32) : Option Slot :=
  if entry = 0 then none else some (entry - 1).toUInt16

/-- How many keys there is room for. -/
def capacity (table : SlotTable) : Nat :=
  table.entries.size

/-- The slot of a key. -/
def get? (table : SlotTable) (key : Nat) : Option Slot :=
  table.entries[key]?.bind slotOf?

/-- Does the key have a slot? -/
def contains (table : SlotTable) (key : Nat) : Bool :=
  (table.get? key).isSome

/-- Makes room for a key. -/
def grow (table : SlotTable) (key : Nat) : SlotTable :=
  let size := table.entries.size
  if key < size then table
  else
    let missing := max (key + 1) (2 * size) - size
    { table with entries := table.entries ++ Array.replicate missing 0 }

/-- Gives a key a slot, whatever it had before. -/
def insert (table : SlotTable) (key : Nat) (slot : Slot) : SlotTable :=
  let table := table.grow key
  { table with entries := table.entries.setIfInBounds key (entryOf slot) }

variable (table : SlotTable) (key other : Nat) (slot : Slot)

/-- The entry of the lowest slot is not zero and that of the highest one fits in
its word, so that every slot is read back from its entry. -/
@[simp] theorem slotOf?_entryOf : slotOf? (entryOf slot) = some slot := by
  have hslot := slot.toNat_lt
  have hentry : (entryOf slot).toNat = slot.toNat + 1 := by
    rw [entryOf, UInt32.toNat_add, UInt16.toNat_toUInt32, UInt32.toNat_one]
    omega
  have hone : (1 : UInt32) ≤ entryOf slot := by
    rw [UInt32.le_iff_toNat_le, hentry, UInt32.toNat_one]
    omega
  have hzero : entryOf slot ≠ 0 := by
    intro hsame
    rw [hsame] at hentry
    cases hentry
  rw [slotOf?, if_neg hzero, Option.some.injEq, ← UInt16.toNat_inj,
    UInt32.toNat_toUInt16, UInt32.toNat_sub_of_le _ _ hone, hentry, UInt32.toNat_one]
  omega

@[simp] theorem slotOf?_zero : slotOf? 0 = none := rfl

/-- Room is only ever added: to the key, and at least to twice as much. -/
theorem capacity_grow :
    (table.grow key).capacity =
      if key < table.capacity then table.capacity
      else max (key + 1) (2 * table.capacity) := by
  simp only [grow, capacity]
  by_cases h : key < table.entries.size
  · simp only [h, if_true]
  · simp only [h, if_false, Array.size_append, Array.size_replicate]
    omega

theorem lt_capacity_grow : key < (table.grow key).capacity := by
  rw [capacity_grow]
  split <;> omega

/-- Making room gives no key a slot. -/
@[simp] theorem get?_grow : (table.grow key).get? other = table.get? other := by
  simp only [grow, get?]
  split
  · rfl
  · rw [Array.getElem?_append]
    split
    · rfl
    · next h =>
      rw [Array.getElem?_eq_none (Nat.le_of_not_lt h), Array.getElem?_replicate]
      split <;> rfl

@[simp] theorem capacity_insert :
    (table.insert key slot).capacity = (table.grow key).capacity := by
  simp [insert, capacity]

/-- A key that is given a slot has it, and the others keep theirs. -/
theorem get?_insert :
    (table.insert key slot).get? other =
      if other = key then some slot else table.get? other := by
  have inside : key < (table.grow key).entries.size := table.lt_capacity_grow key
  rw [← get?_grow table key other]
  simp only [insert, get?]
  split
  · next h => simp [h, inside]
  · next h => rw [Array.getElem?_setIfInBounds_ne (Ne.symm h)]

end SlotTable

end JvmMethod
