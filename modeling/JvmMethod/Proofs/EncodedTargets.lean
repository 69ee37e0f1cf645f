import JvmMethod.Encoding
import JvmMethod.Proofs.CodeLayout

/-!
# Which labels an instruction has holes for

The holes in the pieces of an instruction are for the targets of a branch, and
for nothing else.  A hole of two bytes is for the target of a jump or a test,
and there is one exactly if the element has a `nearTarget?`.
-/

namespace JvmMethod

/-- The label that an element has to reach with an offset of two bytes. -/
def ElementOf.nearTarget? {ℓ : Type} : ElementOf ℓ → Option ℓ
  | .branch (.test _ target) => some target
  | .branch (.goto target) => some target
  | _ => none

section Pieces

variable {start : Nat} {element : Element} {piece : Piece} {label : Label}

/-- The label whose offset a piece holds. -/
def Piece.target? : Piece → Option Label
  | .byte _ => none
  | .near target => some target
  | .far target => some target

theorem target?_of_mem_knownBytes {bytes : List UInt8}
    (h : piece ∈ knownBytes bytes) : piece.target? = none := by
  obtain ⟨byte, -, rfl⟩ := List.mem_map.1 h
  rfl

theorem target?_of_mem_switchPadding (h : piece ∈ switchPadding start) :
    piece.target? = none := by
  obtain ⟨-, rfl⟩ := List.mem_replicate.1 h
  rfl

theorem target?_of_mem_localPieces {short normal : UInt8} {slot : Slot}
    (h : piece ∈ localPieces short normal slot) : piece.target? = none := by
  simp only [localPieces] at h
  split at h
  · cases List.mem_singleton.1 h
    rfl
  split at h
  · exact @target?_of_mem_knownBytes _ [normal, slot.toUInt8] h
  · exact target?_of_mem_knownBytes h

theorem target?_of_mem_incrementPieces {slot : Slot} {amount : Int16}
    (h : piece ∈ incrementPieces slot amount) : piece.target? = none := by
  simp only [incrementPieces] at h
  split at h
  · exact target?_of_mem_knownBytes h
  · exact target?_of_mem_knownBytes h

theorem target?_of_mem_constantPieces {value : Constant}
    (h : piece ∈ value.pieces) : piece.target? = none := by
  cases value with
  | int value =>
    simp only [Constant.pieces] at h
    split at h
    · cases List.mem_singleton.1 h
      rfl
    split at h
    · exact @target?_of_mem_knownBytes _ [0x10, value.toInt8.toUInt8] h
    · exact target?_of_mem_knownBytes h
  | _ =>
    cases List.mem_singleton.1 h
    rfl

/-- Of the instructions only branches have holes. -/
theorem target?_of_mem_pieces {pieces : List Piece}
    (hpieces : element.pieces start = .ok pieces)
    (hbranch : ∀ branch, element ≠ .branch branch) (h : piece ∈ pieces) :
    piece.target? = none := by
  cases element with
  | load kind slot | store kind slot =>
    simp only [Element.pieces] at hpieces
    split at hpieces
    · cases hpieces
    · cases hpieces
      exact target?_of_mem_localPieces h
  | increment slot amount =>
    cases hpieces
    exact target?_of_mem_incrementPieces h
  | constant value =>
    cases hpieces
    exact target?_of_mem_constantPieces h
  | branch branch => exact absurd rfl (hbranch branch)
  | operator _ | methodReturn _ | athrow =>
    cases hpieces
    cases List.mem_singleton.1 h
    rfl
  | label _ | line _ | handler _ | localVariable _ | localVariableType _ =>
    cases hpieces
    cases h

/-- The holes of a branch are for its targets. -/
theorem Branch.mem_targets_of_mem_pieces {branch : Branch Label}
    {pieces : List Piece} (hpieces : branch.pieces start = .ok pieces)
    (h : piece ∈ pieces) (htarget : piece.target? = some label) :
    label ∈ branch.targets := by
  have hknown (hnone : piece.target? = none) : label ∈ branch.targets := by
    rw [hnone] at htarget
    cases htarget
  cases branch with
  | test condition target | goto target =>
    cases hpieces
    simp only [List.mem_cons, List.not_mem_nil, or_false] at h
    rcases h with rfl | rfl
    · exact hknown rfl
    · cases htarget
      exact List.mem_singleton_self _
  | tableSwitch default low targets =>
    simp only [Branch.pieces] at hpieces
    split at hpieces
    · cases hpieces
    cases hpieces
    simp only [List.cons_append, List.append_assoc, List.mem_cons,
      List.mem_append, List.mem_map] at h
    rcases h with rfl | h | rfl | h | h | ⟨target, hmem, rfl⟩
    · exact hknown rfl
    · exact hknown (target?_of_mem_switchPadding h)
    · cases htarget
      exact List.mem_cons_self
    · exact hknown (target?_of_mem_knownBytes h)
    · exact hknown (target?_of_mem_knownBytes h)
    · cases htarget
      exact List.mem_cons_of_mem _ hmem
  | lookupSwitch default targets =>
    cases hpieces
    simp only [List.cons_append, List.append_assoc, List.mem_cons,
      List.mem_append, List.mem_flatMap, List.not_mem_nil, or_false] at h
    rcases h with rfl | h | rfl | h | ⟨⟨key, target⟩, hmem, h | rfl⟩
    · exact hknown rfl
    · exact hknown (target?_of_mem_switchPadding h)
    · cases htarget
      exact List.mem_cons_self
    · exact hknown (target?_of_mem_knownBytes h)
    · exact hknown (target?_of_mem_knownBytes h)
    · cases htarget
      have hpair := List.mem_mergeSort.1 hmem
      exact List.mem_cons_of_mem _ (List.mem_map.2 ⟨_, hpair, rfl⟩)

/-- The holes of an element are for labels that it mentions. -/
theorem mem_labels_of_mem_pieces {pieces : List Piece}
    (hpieces : element.pieces start = .ok pieces) (h : piece ∈ pieces)
    (htarget : piece.target? = some label) : label ∈ element.labels := by
  by_cases hbranch : ∃ branch, element = .branch branch
  · obtain ⟨branch, rfl⟩ := hbranch
    exact branch.mem_targets_of_mem_pieces hpieces h htarget
  · have hnone := target?_of_mem_pieces hpieces
      (fun branch hsame => hbranch ⟨branch, hsame⟩) h
    rw [hnone] at htarget
    cases htarget

/-- A hole of two bytes is for a target that has to be near. -/
theorem near_mem_pieces_iff {pieces : List Piece}
    (hpieces : element.pieces start = .ok pieces) :
    .near label ∈ pieces ↔ element.nearTarget? = some label := by
  have hknown {rest : List Piece} (h : ∀ piece ∈ rest, piece.target? = none) :
      .near label ∉ rest := by
    intro hmem
    cases h _ hmem
  by_cases hbranch : ∃ branch, element = .branch branch
  · obtain ⟨branch, rfl⟩ := hbranch
    cases branch with
    | test condition target | goto target =>
      cases hpieces
      simp [ElementOf.nearTarget?, eq_comm]
    | tableSwitch default low targets =>
      simp only [Element.pieces, Branch.pieces] at hpieces
      split at hpieces
      · cases hpieces
      cases hpieces
      have hpadding : .near label ∉ switchPadding start :=
        hknown fun _ => target?_of_mem_switchPadding
      have hword (value : Int32) : .near label ∉ wordPieces value :=
        hknown fun _ => target?_of_mem_knownBytes
      simp [ElementOf.nearTarget?, hpadding, hword]
    | lookupSwitch default targets =>
      cases hpieces
      have hpadding : .near label ∉ switchPadding start :=
        hknown fun _ => target?_of_mem_switchPadding
      have hword (value : Int32) : .near label ∉ wordPieces value :=
        hknown fun _ => target?_of_mem_knownBytes
      simp [ElementOf.nearTarget?, hpadding, hword]
  · have hnone := hknown fun _ => target?_of_mem_pieces hpieces
      (fun branch hsame => hbranch ⟨branch, hsame⟩)
    refine iff_of_false hnone ?_
    cases element with
    | branch branch => exact absurd ⟨branch, rfl⟩ hbranch
    | _ => simp [ElementOf.nearTarget?]

/-- Only the void kind has no typed instructions. -/
theorem Kind.family?_eq_none_iff {kind : Kind} :
    kind.family? = none ↔ kind = .void := by
  cases kind <;> decide

/-- The highest key of a table is a word as soon as the table has a target, and
is not larger than a method may be. -/
theorem tableHigh?_isSome_iff {low : Int32} {count : Nat}
    (hcount : count ≤ 65535) :
    (tableHigh? low count).isSome ↔
      1 ≤ count ∧ low.toInt + count - 1 ≤ 2147483647 := by
  simp only [tableHigh?, Option.isSome_ite]
  omega

/-- An element can be encoded unless it is void, or a table without a highest
key. -/
theorem Element.exists_pieces
    (hvoid : ∀ slot, element.localSlot? ≠ some (slot, .void))
    (htable : ∀ default low targets,
      element = .branch (.tableSwitch default low targets) →
        (tableHigh? low targets.length).isSome) :
    ∃ pieces, element.pieces start = .ok pieces := by
  cases element with
  | load kind slot | store kind slot =>
    cases hfamily : kind.family? with
    | none =>
      obtain rfl := Kind.family?_eq_none_iff.1 hfamily
      exact absurd rfl (hvoid slot)
    | some family => simp [Element.pieces, hfamily]
  | branch branch =>
    cases branch with
    | tableSwitch default low targets =>
      obtain ⟨high, hhigh⟩ :=
        Option.isSome_iff_exists.1 (htable default low targets rfl)
      simp [Element.pieces, Branch.pieces, hhigh]
    | _ => exact ⟨_, rfl⟩
  | _ => exact ⟨_, rfl⟩

end Pieces

end JvmMethod
