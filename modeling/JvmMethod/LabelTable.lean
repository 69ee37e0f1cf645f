import JvmMethod.Fault

/-!
# The label table

The owner of a method body keeps one entry per label: where the label is, or
that it is not placed yet.  What a position means is up to the owner (an offset
into the code for one, an index into a list of elements for the other).

* A fresh label is the first number that the table does not know yet.
* `assign` gives a label a position; the table grows to hold it, so labels that
  were never handed out here may be placed too.
* `bind` is `assign` for labels that have no position yet, so that a position is
  given once and stays.

The lemmas say what each operation does to the two things that can be seen of a
table: its size, and the position of each label.
-/

namespace JvmMethod

/-- The positions of the labels of a method body, by label number. -/
structure LabelTable where
  positions : Array (Option Nat) := #[]
  deriving DecidableEq

namespace LabelTable

/-- How many labels the table knows. -/
def size (table : LabelTable) : Nat :=
  table.positions.size

/-- The position of a label, if it has one. -/
def position? (table : LabelTable) (label : Label) : Option Nat :=
  table.positions[label.index]?.join

/-- Does the label have a position? -/
def isBound (table : LabelTable) (label : Label) : Bool :=
  (table.position? label).isSome

/-- Makes the labels below `count` known, so that no fresh label is one of
them. -/
def reserve (table : LabelTable) (count : Nat) : LabelTable :=
  { table with
    positions :=
      table.positions ++ Array.replicate (count - table.positions.size) none }

/-- A label that the table did not know, and the table that knows it. -/
def fresh (table : LabelTable) : Label × LabelTable :=
  (⟨table.size⟩, { table with positions := table.positions.push none })

/-- Gives a label a position, whatever it had before. -/
def assign (table : LabelTable) (label : Label) (position : Nat) : LabelTable :=
  let table := table.reserve (label.index + 1)
  { table with
    positions := table.positions.setIfInBounds label.index (some position) }

/-- Gives a label its position.  A label that has one already keeps it, which is
found out when there is room for the label. -/
def bind (table : LabelTable) (label : Label) (position : Nat) :
    Except Fault Unit × LabelTable :=
  let table := table.reserve (label.index + 1)
  if table.isBound label then (.error (.labelAlreadyBound label), table)
  else
    (.ok (),
      { table with
        positions := table.positions.setIfInBounds label.index (some position) })

variable (table : LabelTable) (label other : Label) (position count : Nat)

@[simp] theorem size_reserve : (table.reserve count).size = max table.size count := by
  simp only [size, reserve, Array.size_append, Array.size_replicate]
  omega

/-- Making labels known gives none of them a position. -/
@[simp] theorem position?_reserve :
    (table.reserve count).position? label = table.position? label := by
  simp only [position?, reserve, Array.getElem?_append]
  split
  · rfl
  · next h =>
    rw [Array.getElem?_eq_none (Nat.le_of_not_lt h), Array.getElem?_replicate]
    split <;> rfl

@[simp] theorem size_fresh : table.fresh.2.size = table.size + 1 := by
  simp [size, fresh]

/-- A fresh label has no position, and the others keep theirs. -/
@[simp] theorem position?_fresh :
    table.fresh.2.position? label = table.position? label := by
  simp only [position?, fresh, Array.getElem?_push]
  split
  · next h => simp [h]
  · rfl

@[simp] theorem size_assign :
    (table.assign label position).size = max table.size (label.index + 1) := by
  rw [← size_reserve]
  simp [assign, size]

/-- A label that is given a position has it, and the others keep theirs. -/
theorem position?_assign :
    (table.assign label position).position? other =
      if other = label then some position else table.position? other := by
  have inside : label.index < (table.reserve (label.index + 1)).positions.size := by
    have := table.size_reserve (label.index + 1)
    simp only [size] at this
    omega
  rw [← position?_reserve table other (label.index + 1)]
  simp only [assign, position?]
  split
  · next h => simp [h, inside]
  · next h =>
    have : label.index ≠ other.index := fun same =>
      h (by cases label; cases other; simp_all)
    rw [Array.getElem?_setIfInBounds_ne this]

variable {table label position count}

/-- A label with a position is known to the table. -/
theorem index_lt_size (h : table.position? label = some position) :
    label.index < table.size := by
  refine Nat.lt_of_not_le fun hout => ?_
  rw [position?, Array.getElem?_eq_none hout] at h
  cases h

/-- Nothing is done for labels that are known. -/
theorem reserve_of_le (h : count ≤ table.size) : table.reserve count = table := by
  have hmissing : count - table.positions.size = 0 := Nat.sub_eq_zero_of_le h
  simp only [reserve, hmissing, Array.replicate_zero, Array.append_empty]

/-- **What binding does**: a label without a position is given one, and where the
label has one already, the room that is made for it is no more than there is. -/
theorem bind_eq :
    table.bind label position =
      if table.isBound label then (.error (.labelAlreadyBound label), table)
      else (.ok (), table.assign label position) := by
  have hsame : (table.reserve (label.index + 1)).isBound label =
      table.isBound label := by
    rw [isBound, position?_reserve, isBound]
  simp only [bind, hsame]
  split
  · next hbound =>
    obtain ⟨old, hplace⟩ := Option.isSome_iff_exists.1 hbound
    rw [reserve_of_le (index_lt_size hplace)]
  · rfl

end LabelTable

end JvmMethod
