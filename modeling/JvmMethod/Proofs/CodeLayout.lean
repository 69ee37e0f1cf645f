import Mathlib.Data.List.Induction
import JvmMethod.Encoding

/-!
# Where the elements of a body stand

An assembler that may read its input twice first computes where everything goes.
The size of an element depends on the element and, for a switch, on its offset
modulo four; the offset of an element is the sum of the sizes before it; and the
offset of a label is the offset of the element that places it.

`Element.size` is written down from the instruction formats, without the
encoder.  `pieces_size` says that the encoder agrees.
-/

namespace JvmMethod

/-- The size of a load or store: short, with a byte for the slot, or widened. -/
def localSize (slot : Slot) : Nat :=
  if slot ≤ 3 then 1 else if slot ≤ 255 then 2 else 4

/-- The number of zeros between the opcode of a switch at `start` and its
operands. -/
def paddingSize (start : Nat) : Nat :=
  3 - start % 4

namespace Branch

variable {ℓ : Type}

/-- The size of a branch whose opcode is at `start`. -/
def size (start : Nat) : Branch ℓ → Nat
  | .test _ _ => 3
  | .goto _ => 3
  | .tableSwitch _ _ targets => 13 + paddingSize start + 4 * targets.length
  | .lookupSwitch _ targets => 9 + paddingSize start + 8 * targets.length

end Branch

/-- The size of a constant: in the opcode, with one byte, or with two. -/
def Constant.size : Constant → Nat
  | .int value =>
      if -1 ≤ value ∧ value ≤ 5 then 1
      else if -128 ≤ value ∧ value ≤ 127 then 2
      else 3
  | _ => 1

namespace ElementOf

variable {ℓ : Type}

/-- The size of an element at `start`.  A pseudo-element has none. -/
def size (start : Nat) : ElementOf ℓ → Nat
  | .load _ slot => localSize slot
  | .store _ slot => localSize slot
  | .increment slot amount =>
      if slot ≤ 255 ∧ -128 ≤ amount ∧ amount ≤ 127 then 3 else 6
  | .constant value => value.size
  | .branch instruction => instruction.size start
  | .operator _ | .methodReturn _ | .athrow => 1
  | .label _ | .line _ | .handler _ | .localVariable _
  | .localVariableType _ => 0

/-- The label that an element places. -/
def placed? : ElementOf ℓ → Option ℓ
  | .label placed => some placed
  | _ => none

end ElementOf

/-- A label that is placed once is in one place. -/
theorem place_unique {code : List Element}
    (hnodup : (code.filterMap ElementOf.placed?).Nodup) {label : Label}
    {position other : Nat} (hat : code[position]? = some (.label label))
    (hother : code[other]? = some (.label label)) : position = other := by
  rw [List.Nodup, List.pairwise_filterMap, List.pairwise_iff_getElem] at hnodup
  obtain ⟨hlt, hget⟩ := List.getElem?_eq_some_iff.1 hat
  obtain ⟨hltOther, hgetOther⟩ := List.getElem?_eq_some_iff.1 hother
  rcases Nat.lt_trichotomy position other with hbefore | hsame | hbehind
  · exact absurd rfl (hnodup position other hlt hltOther hbefore label
      (by rw [hget]; rfl) label (by rw [hgetOther]; rfl))
  · exact hsame
  · exact absurd rfl (hnodup other position hltOther hlt hbehind label
      (by rw [hgetOther]; rfl) label (by rw [hget]; rfl))

/-- The offset behind a list of elements of which the first is at `start`. -/
def endOffset (start : Nat) : List Element → Nat
  | [] => start
  | element :: elements => endOffset (start + element.size start) elements

/-- The elements with their offsets, of which the first is `start`. -/
def layout (start : Nat) : List Element → List (Nat × Element)
  | [] => []
  | element :: elements =>
      (start, element) :: layout (start + element.size start) elements

/-- The offset of the element that places a label, if there is one. -/
def labelOffset? (elements : List Element) (label : Label) : Option Nat :=
  (layout 0 elements).findSome? fun (offset, element) =>
    if element.placed? = some label then some offset else none

/-- The number of bytes of a piece. -/
def Piece.size : Piece → Nat
  | .byte _ => 1
  | .near _ => 2
  | .far _ => 4

/-- The number of bytes of pieces. -/
def piecesSize : List Piece → Nat
  | [] => 0
  | piece :: pieces => piece.size + piecesSize pieces

/-- The pieces of an element at `start`, none if it has no encoding. -/
def Element.piecesAt (start : Nat) (element : Element) : List Piece :=
  match element.pieces start with
  | .ok pieces => pieces
  | .error _ => []

theorem Element.piecesAt_eq {start : Nat} {element : Element}
    {pieces : List Piece} (h : element.pieces start = .ok pieces) :
    element.piecesAt start = pieces := by
  simp [piecesAt, h]

/-- The pieces of elements of which the first is at `start`, each with the
offset of the instruction that it belongs to. -/
def placedPieces (start : Nat) : List Element → List (Nat × Piece)
  | [] => []
  | element :: elements =>
      (element.piecesAt start).map (start, ·) ++
        placedPieces (start + element.size start) elements

section Append

variable (start : Nat) (elements more : List Element) (element : Element)

@[simp] theorem endOffset_append :
    endOffset start (elements ++ more) =
      endOffset (endOffset start elements) more := by
  induction elements generalizing start with
  | nil => rfl
  | cons element elements ih => exact ih _

@[simp] theorem layout_append :
    layout start (elements ++ more) =
      layout start elements ++ layout (endOffset start elements) more := by
  induction elements generalizing start with
  | nil => rfl
  | cons element elements ih =>
    simp only [List.cons_append, layout, endOffset, ih]

@[simp] theorem placedPieces_append :
    placedPieces start (elements ++ more) =
      placedPieces start elements ++
        placedPieces (endOffset start elements) more := by
  induction elements generalizing start with
  | nil => rfl
  | cons element elements ih =>
    simp only [List.cons_append, placedPieces, endOffset, ih, List.append_assoc]

theorem le_endOffset : start ≤ endOffset start elements := by
  induction elements generalizing start with
  | nil => exact Nat.le_refl start
  | cons element elements ih => exact Nat.le_trans (Nat.le_add_right _ _) (ih _)

/-- Appending an element gives a label an offset only if the element places
it. -/
theorem labelOffset?_concat (label : Label) :
    labelOffset? (elements ++ [element]) label =
      (labelOffset? elements label).or
        (if element.placed? = some label then some (endOffset 0 elements)
          else none) := by
  simp only [labelOffset?, layout_append, List.findSome?_append]
  congr 1
  simp only [layout, List.findSome?_cons, List.findSome?_nil]
  split <;> simp_all

end Append

section Layout

variable {start offset : Nat} {elements : List Element} {element : Element}

/-- An element of the layout ends before the code does. -/
theorem offset_add_size_le (h : (offset, element) ∈ layout start elements) :
    offset + element.size offset ≤ endOffset start elements := by
  induction elements generalizing start with
  | nil => cases h
  | cons first elements ih =>
    rcases List.mem_cons.1 h with h | h
    · cases h
      exact le_endOffset _ _
    · exact ih h

/-- An element of the layout is one of the elements, and starts behind the
elements before it. -/
theorem exists_append_of_mem_layout (h : (offset, element) ∈ layout start elements) :
    ∃ before after, elements = before ++ element :: after ∧
      offset = endOffset start before := by
  induction elements generalizing start with
  | nil => cases h
  | cons first elements ih =>
    rcases List.mem_cons.1 h with h | h
    · cases h
      exact ⟨[], elements, rfl, rfl⟩
    · obtain ⟨before, after, rfl, hoffset⟩ := ih h
      exact ⟨first :: before, after, rfl, hoffset⟩

/-- Every element has an offset. -/
theorem exists_mem_layout (start : Nat) (h : element ∈ elements) :
    ∃ offset, (offset, element) ∈ layout start elements := by
  obtain ⟨before, after, rfl⟩ := List.append_of_mem h
  exact ⟨endOffset start before, by simp [layout]⟩

/-- The placed pieces are those of the elements of the layout. -/
theorem mem_placedPieces {piece : Piece} :
    (offset, piece) ∈ placedPieces start elements ↔
      ∃ element, (offset, element) ∈ layout start elements ∧
        piece ∈ element.piecesAt offset := by
  induction elements generalizing start with
  | nil => simp [placedPieces, layout]
  | cons first elements ih =>
    simp only [placedPieces, layout, List.mem_append, ih, List.mem_map,
      List.mem_cons, Prod.mk.injEq]
    constructor
    · intro h
      obtain ⟨piece, hpiece, rfl, rfl⟩ | ⟨element, hmem, hpiece⟩ := h
      · exact ⟨first, .inl ⟨rfl, rfl⟩, hpiece⟩
      · exact ⟨element, .inr hmem, hpiece⟩
    · intro h
      obtain ⟨element, ⟨rfl, rfl⟩ | hmem, hpiece⟩ := h
      · exact .inl ⟨piece, hpiece, rfl, rfl⟩
      · exact .inr ⟨element, hmem, hpiece⟩

theorem labelOffset?_le {label : Label}
    (h : labelOffset? elements label = some offset) :
    offset ≤ endOffset 0 elements := by
  obtain ⟨⟨place, element⟩, hmem, hplace⟩ := List.exists_of_findSome?_eq_some h
  have := offset_add_size_le hmem
  simp only [Option.ite_none_right_eq_some, Option.some.injEq] at hplace
  omega

/-- A label has an offset exactly if an element places it. -/
theorem isSome_labelOffset? {label : Label} :
    (labelOffset? elements label).isSome ↔
      label ∈ elements.filterMap ElementOf.placed? := by
  induction elements using List.reverseRecOn with
  | nil => simp [labelOffset?, layout]
  | append_singleton elements element ih =>
    rw [labelOffset?_concat]
    simp only [Option.isSome_or, Bool.or_eq_true, ih, List.filterMap_append,
      List.mem_append]
    split <;> simp_all

end Layout

section Pieces

variable (pieces more : List Piece) (piece : Piece) (bytes : List UInt8)

@[simp] theorem piecesSize_nil : piecesSize [] = 0 := rfl

@[simp] theorem piecesSize_cons :
    piecesSize (piece :: pieces) = piece.size + piecesSize pieces := rfl

@[simp] theorem piecesSize_append :
    piecesSize (pieces ++ more) = piecesSize pieces + piecesSize more := by
  induction pieces with
  | nil => simp
  | cons piece pieces ih => simp [ih, Nat.add_assoc]

@[simp] theorem piecesSize_replicate (count : Nat) :
    piecesSize (List.replicate count piece) = count * piece.size := by
  induction count with
  | zero => simp
  | succ count ih =>
    rw [List.replicate_succ, piecesSize_cons, ih, Nat.succ_mul, Nat.add_comm]

@[simp] theorem piecesSize_knownBytes :
    piecesSize (knownBytes bytes) = bytes.length := by
  induction bytes with
  | nil => rfl
  | cons byte bytes ih =>
    simp only [knownBytes, List.map_cons, piecesSize_cons, List.length_cons,
      Piece.size] at ih ⊢
    omega

@[simp] theorem piecesSize_switchPadding (start : Nat) :
    piecesSize (switchPadding start) = paddingSize start := by
  simp [switchPadding, paddingSize, Piece.size]

@[simp] theorem piecesSize_wordPieces (value : Int32) :
    piecesSize (wordPieces value) = 4 := by
  simp [wordPieces, bytes32]

@[simp] theorem piecesSize_map_far (targets : List Label) :
    piecesSize (targets.map .far) = 4 * targets.length := by
  induction targets with
  | nil => rfl
  | cons target targets ih =>
    simp only [List.map_cons, piecesSize_cons, Piece.size, ih, List.length_cons]
    omega

theorem piecesSize_pairs (targets : List (Int32 × Label)) :
    piecesSize (targets.flatMap fun (key, target) =>
      wordPieces key ++ [.far target]) = 8 * targets.length := by
  induction targets with
  | nil => rfl
  | cons target targets ih =>
    simp only [List.flatMap_cons, piecesSize_append, piecesSize_wordPieces,
      piecesSize_cons, piecesSize_nil, Piece.size, List.length_cons] at ih ⊢
    omega

theorem piecesSize_localPieces (short normal : UInt8) (slot : Slot) :
    piecesSize (localPieces short normal slot) = localSize slot := by
  simp only [localPieces, localSize]
  split
  · rfl
  · split
    · rfl
    · simp [bytes16]

end Pieces

theorem Branch.pieces_size {start : Nat} {branch : Branch Label}
    {pieces : List Piece} (h : branch.pieces start = .ok pieces) :
    piecesSize pieces = branch.size start := by
  cases branch with
  | test condition target => cases h; rfl
  | goto target => cases h; rfl
  | tableSwitch default low targets =>
    simp only [Branch.pieces] at h
    split at h
    · cases h
    · cases h
      simp only [piecesSize_append, piecesSize_cons, Piece.size, Branch.size,
        piecesSize_switchPadding, piecesSize_wordPieces, piecesSize_map_far]
      omega
  | lookupSwitch default targets =>
    cases h
    have hlength : (sortedTargets targets).length = targets.length :=
      List.length_mergeSort _
    simp only [piecesSize_append, piecesSize_cons, Piece.size, Branch.size,
      piecesSize_switchPadding, piecesSize_wordPieces, piecesSize_pairs, hlength]
    omega

/-- The pieces of an element are as long as its format says. -/
theorem pieces_size {start : Nat} {element : Element} {pieces : List Piece}
    (h : element.pieces start = .ok pieces) :
    piecesSize pieces = element.size start := by
  cases element with
  | load kind slot =>
    simp only [Element.pieces] at h
    split at h
    · cases h
    · cases h
      exact piecesSize_localPieces _ _ slot
  | store kind slot =>
    simp only [Element.pieces] at h
    split at h
    · cases h
    · cases h
      exact piecesSize_localPieces _ _ slot
  | increment slot amount =>
    cases h
    simp only [incrementPieces, ElementOf.size]
    split <;> simp [bytes16]
  | constant value =>
    cases h
    cases value with
    | int value =>
      simp only [Constant.pieces, ElementOf.size, Constant.size]
      split
      · rfl
      · split
        · rfl
        · simp [bytes16]
    | _ => rfl
  | branch branch => exact Branch.pieces_size h
  | _ => cases h; rfl

end JvmMethod
