import JvmMethod.LocalShift
import JvmMethod.Proofs.SlotMachine

/-!
# Where a shift puts the slots of a fragment

`LocalShift.place?` reads the table of a shift by slot and width.  The entries
come in pairs: a wide value that is seen first takes the narrow entry of its
slot along.  Still, two entries have a slot of the method in common only if they
are for the same slot of the fragment (`LocalShift.IsApart`), since every slot
that is entered is above all that were entered before.

* `LocalShift.IsApart.assign`: the invariant is kept when a slot is entered.
* `LocalShift.place?_assign_of_some`: an entry stays.
* `LocalShift.IsApart.separates`: where the invariant holds, moving the slots
  separates them.
-/

namespace JvmMethod

namespace LocalShift

/-- Where the values of a width in a slot above the fixed ones have moved. -/
def place? (shift : LocalShift) (slot width : Nat) : Option Nat :=
  if shift.fixed.toNat ≤ slot ∧ (width = 1 ∨ width = 2) then
    (shift.slots.get? (2 * slot - shift.fixed.toNat + width - 1)).map
      UInt16.toNat
  else none

/-- Where the values of a width in a slot are in the method: the fixed slots
are shared. -/
def moved (shift : LocalShift) (slot width : Nat) : Option Nat :=
  if slot + width ≤ shift.fixed.toNat then some slot
  else shift.place? slot width

/-- What has moved is behind the fixed slots and before `top`, and only what was
in one slot has a slot in common. -/
structure IsApart (shift : LocalShift) (top : Nat) : Prop where
  range : ∀ {slot width target}, shift.place? slot width = some target →
    shift.fixed.toNat ≤ target ∧ target + width ≤ top
  apart : ∀ {slot width target other otherWidth otherTarget},
    shift.place? slot width = some target →
    shift.place? other otherWidth = some otherTarget →
    Overlap target width otherTarget otherWidth → slot = other

variable {shift : LocalShift} {slot : Slot} {target : Slot} {top width : Nat}

/-- The entry of a slot is the one that the shift looks up. -/
theorem place?_eq (hfixed : shift.fixed ≤ slot) (hwidth : width = 1 ∨ width = 2) :
    shift.place? slot.toNat width =
      (shift.slots.get? (key shift.fixed slot width)).map UInt16.toNat :=
  if_pos ⟨UInt16.le_iff_toNat_le.1 hfixed, hwidth⟩

@[simp] theorem fixed_assign (key : Nat) :
    (shift.assign key width target).fixed = shift.fixed := by
  simp only [assign]
  split <;> rfl

/-- The table after a slot is entered: a wide value takes the key before its own
along, if that is free. -/
theorem get?_assign (key other : Nat) :
    (shift.assign key width target).slots.get? other =
      if other = key then some target
      else if width = 2 ∧ other + 1 = key ∧ shift.slots.get? other = none then
        some target
      else shift.slots.get? other := by
  simp only [assign, SlotTable.contains, SlotTable.get?_insert]
  by_cases hself : key - 1 = key
  · have hzero : key = 0 := by omega
    have hnext : ¬ other + 1 = key := by omega
    simp [hself, hnext, SlotTable.get?_insert]
  · simp only [hself, if_false]
    split
    · next htakes =>
      simp only [Bool.and_eq_true, decide_eq_true_eq, Bool.not_eq_true',
        Option.isSome_eq_false_iff, Option.isNone_iff_eq_none] at htakes
      obtain ⟨hwidth, hfree⟩ := htakes
      simp only [SlotTable.get?_insert]
      by_cases hbefore : other = key - 1
      · have hnext : other + 1 = key := by omega
        have hother : ¬ other = key := by omega
        subst hbefore
        simp [hwidth, hnext, hfree, hother]
      · have hnext : ¬ other + 1 = key := by omega
        simp [hbefore, hnext]
    · next hkeeps =>
      rw [SlotTable.get?_insert]
      by_cases hother : other = key
      · simp [hother]
      · simp only [hother, if_false]
        rw [if_neg]
        intro htakes
        obtain ⟨rfl, hnext, hnone⟩ := htakes
        have hbefore : key - 1 = other := by omega
        simp [hbefore, hnone] at hkeeps

section Assign

variable (hfixed : shift.fixed ≤ slot) (hwidth : width = 1 ∨ width = 2)

include hfixed hwidth

/-- The places after a slot is entered. -/
theorem place?_assign (other otherWidth : Nat) :
    (shift.assign (key shift.fixed slot width) width target).place? other
        otherWidth =
      if other = slot.toNat ∧ otherWidth = width then some target.toNat
      else if width = 2 ∧ other = slot.toNat ∧ otherWidth = 1 ∧
          shift.place? other otherWidth = none then some target.toNat
      else shift.place? other otherWidth := by
  have hle : shift.fixed.toNat ≤ slot.toNat := UInt16.le_iff_toNat_le.1 hfixed
  by_cases hin : shift.fixed.toNat ≤ other ∧ (otherWidth = 1 ∨ otherWidth = 2)
  · have hself : 2 * other - shift.fixed.toNat + otherWidth - 1 =
        key shift.fixed slot width ↔ other = slot.toNat ∧ otherWidth = width := by
      simp only [key]
      omega
    have hnext : 2 * other - shift.fixed.toNat + otherWidth - 1 + 1 =
        key shift.fixed slot width ∧ width = 2 ↔
          width = 2 ∧ other = slot.toNat ∧ otherWidth = 1 := by
      simp only [key]
      omega
    simp only [place?, fixed_assign, hin, and_self, if_true, get?_assign, hself,
      Option.map_eq_none_iff]
    split
    · rfl
    · by_cases htaken : width = 2 ∧ other = slot.toNat ∧ otherWidth = 1
      · obtain ⟨hkey, -⟩ := hnext.2 htaken
        obtain ⟨rfl, rfl, rfl⟩ := htaken
        simp only [hkey, true_and]
        split <;> rfl
      · rw [if_neg, if_neg]
        · intro hsame
          obtain ⟨hw, ho, hone, -⟩ := hsame
          exact htaken ⟨hw, ho, hone⟩
        · intro hsame
          obtain ⟨hw, hkey, -⟩ := hsame
          exact htaken (hnext.1 ⟨hkey, hw⟩)
  · have hself : ¬ (other = slot.toNat ∧ otherWidth = width) := by
      intro hsame
      obtain ⟨rfl, rfl⟩ := hsame
      exact hin ⟨hle, hwidth⟩
    have hbefore : ¬ (width = 2 ∧ other = slot.toNat ∧ otherWidth = 1 ∧
        shift.place? other otherWidth = none) := by
      intro hsame
      obtain ⟨-, rfl, rfl, -⟩ := hsame
      exact hin ⟨hle, .inl rfl⟩
    rw [if_neg hself, if_neg hbefore]
    simp only [place?, fixed_assign, if_neg hin]

theorem place?_assign_self :
    (shift.assign (key shift.fixed slot width) width target).place? slot.toNat
      width = some target.toNat := by
  rw [place?_assign hfixed hwidth, if_pos ⟨rfl, rfl⟩]

/-- An entry stays when another one is made. -/
theorem place?_assign_of_some {other otherWidth otherTarget : Nat}
    (hnew : shift.place? slot.toNat width = none)
    (h : shift.place? other otherWidth = some otherTarget) :
    (shift.assign (key shift.fixed slot width) width target).place? other
      otherWidth = some otherTarget := by
  rw [place?_assign hfixed hwidth, if_neg, if_neg, h]
  · intro hfree
    obtain ⟨-, -, -, hnone⟩ := hfree
    rw [h] at hnone
    cases hnone
  · intro hsame
    obtain ⟨rfl, rfl⟩ := hsame
    rw [h] at hnew
    cases hnew

/-- An entry is new, and then it is for the slot that was entered, or it was
there before. -/
theorem place?_assign_cases {other otherWidth otherTarget : Nat}
    (h : (shift.assign (key shift.fixed slot width) width target).place? other
      otherWidth = some otherTarget) :
    (other = slot.toNat ∧ otherWidth ≤ width ∧ otherTarget = target.toNat) ∨
      shift.place? other otherWidth = some otherTarget := by
  rw [place?_assign hfixed hwidth] at h
  split at h
  · next hself =>
    cases h
    exact .inl ⟨hself.1, Nat.le_of_eq hself.2, rfl⟩
  split at h
  · next hbefore =>
    cases h
    exact .inl ⟨hbefore.2.1, by omega, rfl⟩
  · exact .inr h

/-- **A slot is entered.**  Its place is above all others. -/
theorem IsApart.assign (h : shift.IsApart top)
    (hle : shift.fixed.toNat ≤ top) (htarget : target.toNat = top) :
    (shift.assign (key shift.fixed slot width) width target).IsApart
      (top + width) where
  range hplace := by
    rw [fixed_assign]
    rcases place?_assign_cases hfixed hwidth hplace with ⟨-, hw, rfl⟩ | hold
    · omega
    · obtain ⟨hlow, hhigh⟩ := h.range hold
      omega
  apart hplace hother hoverlap := by
    simp only [Overlap] at hoverlap
    rcases place?_assign_cases hfixed hwidth hplace with ⟨rfl, -, rfl⟩ | hold <;>
      rcases place?_assign_cases hfixed hwidth hother with
        ⟨rfl, -, rfl⟩ | hotherOld
    · rfl
    · have := (h.range hotherOld).2
      omega
    · have := (h.range hold).2
      omega
    · exact h.apart hold hotherOld hoverlap

end Assign

theorem isApart_empty (fixed : Slot) : ({ fixed } : LocalShift).IsApart top where
  range h := by simp [place?, SlotTable.get?] at h
  apart h := by simp [place?, SlotTable.get?] at h

theorem IsApart.mono {later : Nat} (h : shift.IsApart top) (hle : top ≤ later) :
    shift.IsApart later where
  range hplace := ⟨(h.range hplace).1, Nat.le_trans (h.range hplace).2 hle⟩
  apart := h.apart

/-- **Moving the slots separates them.** -/
theorem IsApart.separates (h : shift.IsApart top) : Separates shift.moved := by
  intro slot width target other otherWidth otherTarget hwidth hother hplace
    hotherPlace hoverlap
  simp only [moved] at hplace hotherPlace
  simp only [Overlap] at hoverlap ⊢
  split at hplace <;> split at hotherPlace
  · cases hplace
    cases hotherPlace
    exact hoverlap
  · -- a fixed slot and one that has moved behind the fixed ones
    cases hplace
    have := (h.range hotherPlace).1
    omega
  · cases hotherPlace
    have := (h.range hplace).1
    omega
  · cases h.apart hplace hotherPlace hoverlap
    omega

end LocalShift

end JvmMethod
