import JvmMethod.Proofs.DirectPush
import JvmMethod.Proofs.EncodedTargets
import JvmMethod.Proofs.WordReading

/-!
# Pushes that are refused

`Direct.push_eq_error_iff` says all there is to know about a push into the direct
terminal that is refused: when that is, for which reason, and what becomes of the
body (`Direct.Refuses`).  What an element may be refused for is found out before
anything is noted, placed or written, and there is one exception: whether a label
is near enough for a branch is found out when its offset is to be written, and
then the opcode is written already.

* `Direct.push_eq_error_iff`: when and how a push is refused.
* `Direct.push_error`: whatever the reason, no more than the code and the offsets
  to be filled in are touched.
-/

namespace JvmMethod

namespace Direct

variable {direct next : Direct} {element : Element} {fault : Fault}

/-- The label has been placed, too far away for two bytes of offset in an
instruction that starts at the end of the code. -/
def IsTooFar (direct : Direct) (label : Label) (offset : Int) : Prop :=
  ∃ position, direct.labels.position? label = some position ∧
    offset = position - direct.code.size ∧ (offset < -32768 ∨ 32767 < offset)

/-- The body refuses an element for a reason, and becomes another one. -/
inductive Refuses (direct : Direct) : Element → Fault → Direct → Prop
  | voidLocal {element : Element} {slot : Slot}
      (hslot : element.localSlot? = some (slot, .void)) :
      direct.Refuses element .voidLocal direct
  | labelAlreadyBound {label : Label}
      (hbound : direct.labels.isBound label = true) :
      direct.Refuses (.label label) (.labelAlreadyBound label) direct
  /-- A table without targets, or with a last key that is no word. -/
  | invalidSwitch {default : Label} {low : Int32} {targets : List Label}
      (hkeys : targets = [] ∨ 2147483648 < targets.length ∨
        2147483647 < low.toInt + targets.length - 1) :
      direct.Refuses (.branch (.tableSwitch default low targets))
        (.invalidSwitch low targets.length) direct
  /-- A conditional branch, of which the opcode is left behind. -/
  | farTest {condition : Condition} {target : Label} {offset : Int}
      (hfar : direct.IsTooFar target offset) :
      direct.Refuses (.branch (.test condition target))
        (.branchOffsetOverflow target offset)
        { direct with code := direct.code.push condition.opcode }
  /-- A jump, of which the opcode is left behind. -/
  | farGoto {target : Label} {offset : Int} (hfar : direct.IsTooFar target offset) :
      direct.Refuses (.branch (.goto target)) (.branchOffsetOverflow target offset)
        { direct with code := direct.code.push 0xa7 }

/-- What is taken is not refused. -/
theorem Takes.push_ne_error (h : direct.Takes element) :
    direct.push element ≠ (.error fault, next) := by
  rw [push_eq_ok_iff.2 ⟨h, rfl⟩]
  intro hboth
  cases hboth

/-- An element that can be encoded, places no label and has to reach none with two
bytes is taken. -/
theorem takes_of_encodable
    (hvoid : ∀ slot, element.localSlot? ≠ some (slot, .void))
    (hplaced : element.placed? = none) (hnear : element.nearTarget? = none)
    (hpieces : ∃ pieces, element.pieces direct.code.size = .ok pieces) :
    direct.Takes element where
  not_void := touchesVoid_eq_false_iff.2 hvoid
  unplaced := by simp [hplaced]
  encodable := hpieces
  fits := by
    obtain ⟨pieces, hpieces⟩ := hpieces
    rw [Element.piecesAt_eq hpieces]
    intro piece hmem
    cases piece with
    | byte _ | far _ => trivial
    | near label =>
      have htarget := (near_mem_pieces_iff hpieces).1 hmem
      rw [hnear] at htarget
      cases htarget

/-- A branch of an opcode and two bytes of offset is refused if and only if its
target is too far away. -/
theorem push_near_eq_error_iff {branch : Branch Label} {opcode : UInt8}
    {target : Label}
    (hpieces : branch.pieces direct.code.size = .ok [.byte opcode, .near target]) :
    direct.push (.branch branch) = (.error fault, next) ↔
      ∃ offset, direct.IsTooFar target offset ∧
        fault = .branchOffsetOverflow target offset ∧
        next = { direct with code := direct.code.push opcode } := by
  have hpush : direct.push (.branch branch) =
      direct.writePieces direct.code.size [.byte opcode, .near target] := by
    rw [push_instruction rfl rfl]
    simp only [Element.pieces, hpieces]
    rfl
  rw [hpush]
  cases hplace : direct.labels.position? target with
  | none => simp [writePieces, writePiece, IsTooFar, hplace]
  | some position =>
    cases hfits : fitsInt16 ((position : Int) - direct.code.size) with
    | true =>
      have hnear := fitsInt16_iff.1 hfits
      simp [writePieces, writePiece, IsTooFar, hplace, hfits]
      omega
    | false =>
      have hfar : ((position : Int) - direct.code.size < -32768 ∨
          32767 < (position : Int) - direct.code.size) := by
        have hnot := mt fitsInt16_iff.2 (Bool.eq_false_iff.1 hfits)
        omega
      simp [writePieces, writePiece, IsTooFar, hplace, hfits, hfar, eq_comm]

/-- A table is refused if and only if its last key is no word. -/
theorem push_tableSwitch_eq_error_iff {default : Label} {low : Int32}
    {targets : List Label} :
    direct.push (.branch (.tableSwitch default low targets)) = (.error fault, next) ↔
      (targets = [] ∨ 2147483648 < targets.length ∨
        2147483647 < low.toInt + targets.length - 1) ∧
        fault = .invalidSwitch low targets.length ∧ next = direct := by
  have hkeys : tableHigh? low targets.length = none ↔
      targets = [] ∨ 2147483648 < targets.length ∨
        2147483647 < low.toInt + targets.length - 1 := by
    simp only [tableHigh?, ite_eq_right_iff, reduceCtorEq, imp_false,
      ← List.length_eq_zero_iff]
    omega
  rw [← hkeys]
  cases hhigh : tableHigh? low targets.length with
  | none =>
    have hpush : direct.push (.branch (.tableSwitch default low targets)) =
        (.error (.invalidSwitch low targets.length), direct) := by
      rw [push_instruction rfl rfl]
      simp only [Element.pieces, Branch.pieces, hhigh]
      rfl
    simp [hpush, eq_comm]
  | some high =>
    have hpieces : ∃ pieces, Element.pieces direct.code.size
        (.branch (.tableSwitch default low targets)) = .ok pieces := by
      simp [Element.pieces, Branch.pieces, hhigh]
    have htakes : direct.Takes (.branch (.tableSwitch default low targets)) :=
      takes_of_encodable (by rintro _ ⟨⟩) rfl rfl hpieces
    simp [htakes.push_ne_error]

/-- A label is refused if and only if it has been placed. -/
theorem push_label_eq_error_iff {label : Label} :
    direct.push (.label label) = (.error fault, next) ↔
      direct.labels.isBound label = true ∧ fault = .labelAlreadyBound label ∧
        next = direct := by
  by_cases hbound : direct.labels.isBound label = true
  · have hpush : direct.push (.label label) =
        (.error (.labelAlreadyBound label), direct) := if_pos hbound
    simp [hpush, hbound, eq_comm]
  · have hplace := LabelTable.isBound_eq_false_iff.1 (by simpa using hbound)
    have htakes : direct.Takes (.label label) := by
      refine (takes_pseudo_iff rfl).2 ⟨rfl, ?_⟩
      rintro other ⟨⟩
      exact hplace
    simp [htakes.push_ne_error, hbound]

/-- **When a push is refused**, and what becomes of the body. -/
theorem push_eq_error_iff :
    direct.push element = (.error fault, next) ↔
      direct.Refuses element fault next := by
  constructor
  · intro h
    by_cases hvoid : ∃ slot, element.localSlot? = some (slot, .void)
    · obtain ⟨slot, hslot⟩ := hvoid
      simp only [push, touchesVoid, hslot, if_true] at h
      cases h
      exact .voidLocal hslot
    -- what has no check of its own is taken
    have htaken (hplaced : element.placed? = none)
        (hnear : element.nearTarget? = none)
        (htable : ∀ default low targets,
          element ≠ .branch (.tableSwitch default low targets)) :
        direct.Refuses element fault next := by
      have hvoid := not_exists.1 hvoid
      have htakes : direct.Takes element :=
        takes_of_encodable hvoid hplaced hnear
          (Element.exists_pieces hvoid fun default low targets hsame =>
            absurd hsame (htable default low targets))
      exact absurd h htakes.push_ne_error
    cases element with
    | label label =>
      obtain ⟨hbound, rfl, rfl⟩ := push_label_eq_error_iff.1 h
      exact .labelAlreadyBound hbound
    | branch branch =>
      cases branch with
      | test condition target =>
        obtain ⟨offset, hfar, rfl, rfl⟩ := (push_near_eq_error_iff rfl).1 h
        exact .farTest hfar
      | goto target =>
        obtain ⟨offset, hfar, rfl, rfl⟩ := (push_near_eq_error_iff rfl).1 h
        exact .farGoto hfar
      | tableSwitch default low targets =>
        obtain ⟨hkeys, rfl, rfl⟩ := push_tableSwitch_eq_error_iff.1 h
        exact .invalidSwitch hkeys
      | lookupSwitch default targets => exact htaken rfl rfl (by rintro _ _ _ ⟨⟩)
    | _ => exact htaken rfl rfl (by rintro _ _ _ ⟨⟩)
  · intro h
    cases h with
    | voidLocal hslot => simp only [push, touchesVoid, hslot, if_true]
    | labelAlreadyBound hbound =>
      exact push_label_eq_error_iff.2 ⟨hbound, rfl, rfl⟩
    | invalidSwitch hkeys =>
      exact push_tableSwitch_eq_error_iff.2 ⟨hkeys, rfl, rfl⟩
    | farTest hfar => exact (push_near_eq_error_iff rfl).2 ⟨_, hfar, rfl, rfl⟩
    | farGoto hfar => exact (push_near_eq_error_iff rfl).2 ⟨_, hfar, rfl, rfl⟩

/-- The terminal has written something, and done nothing else. -/
structure Wrote (direct next : Direct) : Prop where
  same : ∃ code fixups, next = { direct with code, fixups }
  size_le : direct.code.size ≤ next.code.size

/-- **A push that is refused** may have written something, and has done nothing
else. -/
theorem push_error (h : direct.push element = (.error fault, next)) :
    direct.Wrote next := by
  cases push_eq_error_iff.1 h with
  | voidLocal _ | labelAlreadyBound _ | invalidSwitch _ =>
    exact ⟨⟨_, _, rfl⟩, Nat.le_refl _⟩
  | farTest _ | farGoto _ => exact ⟨⟨_, direct.fixups, rfl⟩, by simp⟩

end Direct

end JvmMethod
