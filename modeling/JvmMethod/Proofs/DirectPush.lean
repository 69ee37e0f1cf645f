import JvmMethod.Proofs.CodeDraft
import JvmMethod.Proofs.CodeLayout

/-!
# What a push does

`push_eq_ok_iff` says all there is to know about a push into the direct terminal
that is not refused: when that is (`Direct.Takes`), and what becomes of the body
(`Direct.taken`).  Of an element the body notes the label it places, its end of
the local slots, its entries in the side tables, and its cells.
-/

namespace JvmMethod

namespace ElementOf

variable {ℓ : Type}

/-- The exception handler that an element describes. -/
def handler? : ElementOf ℓ → Option (ExceptionHandler ℓ)
  | .handler entry => some entry
  | _ => none

/-- The source line that an element gives. -/
def line? : ElementOf ℓ → Option UInt16
  | .line number => some number
  | _ => none

/-- The local variable that an element describes. -/
def localVariable? : ElementOf ℓ → Option (LocalVariable ℓ)
  | .localVariable entry => some entry
  | _ => none

/-- The local variable with a signature that an element describes. -/
def localVariableType? : ElementOf ℓ → Option (LocalVariableType ℓ)
  | .localVariableType entry => some entry
  | _ => none

/-- The end of the local slots that an element is about, zero if there are
none. -/
def slotEnd (element : ElementOf ℓ) : Nat :=
  match element.localSlot? with
  | some (slot, kind) => slot.toNat + kind.width
  | none => 0

end ElementOf

/-- The table after an element that may place a label. -/
def LabelTable.placing (labels : LabelTable) (placed? : Option Label)
    (position : Nat) : LabelTable :=
  match placed? with
  | some label => labels.assign label position
  | none => labels

/-- Pushing the element is not refused. -/
structure Direct.Takes (direct : Direct) (element : Element) : Prop where
  not_void : Direct.touchesVoid element = false
  unplaced : ∀ label, element.placed? = some label →
    direct.labels.position? label = none
  encodable : ∃ pieces, element.pieces direct.code.size = .ok pieces
  fits : ∀ piece ∈ element.piecesAt direct.code.size,
    piece.Fits direct.labels direct.code.size

/-- The cells of the next element of a body. -/
def Direct.cellsOf (direct : Direct) (element : Element) : List Cell :=
  (element.piecesAt direct.code.size).flatMap
    (Piece.cells direct.labels direct.code.size)

/-- The body once it has taken an element. -/
def Direct.taken (direct : Direct) (element : Element) : Direct :=
  { direct.draft (direct.cellsOf element) with
    labels := direct.labels.placing element.placed? direct.code.size
    maxLocals := max direct.maxLocals element.slotEnd
    handlers := direct.handlers ++ element.handler?.toArray
    lines := direct.lines ++ (element.line?.map fun line =>
      { start := UInt16.ofNat direct.code.size, line : LineEntry }).toArray
    localVariables := direct.localVariables ++ element.localVariable?.toArray
    localVariableTypes :=
      direct.localVariableTypes ++ element.localVariableType?.toArray }

namespace LabelTable

variable {labels : LabelTable} {label : Label}

theorem isBound_eq_false_iff :
    labels.isBound label = false ↔ labels.position? label = none := by
  simp [isBound]

/-- Placing a label gives it the position, and changes no other. -/
theorem position?_placing {placed? : Option Label} {position : Nat}
    (h : ∀ other, placed? = some other → labels.position? other = none) :
    (labels.placing placed? position).position? label =
      (labels.position? label).or
        (if placed? = some label then some position else none) := by
  cases placed? with
  | none => simp [placing]
  | some placed =>
    have hnone := h placed rfl
    simp only [placing, position?_assign, Option.some.injEq]
    by_cases hsame : label = placed
    · simp [hsame, hnone]
    · simp [hsame, Ne.symm hsame]

/-- The table grows to hold a label that is placed. -/
theorem size_placing {placed? : Option Label} {position : Nat} :
    (labels.placing placed? position).size =
      max labels.size (placed?.elim 0 (·.index + 1)) := by
  cases placed? with
  | none => simp [placing]
  | some placed => simp [placing]

theorem isBound_placing {placed? : Option Label} {position : Nat}
    (h : ∀ other, placed? = some other → labels.position? other = none) :
    (labels.placing placed? position).isBound label =
      (labels.isBound label || decide (placed? = some label)) := by
  rw [isBound, position?_placing h, Option.isSome_or]
  congr 1
  split <;> simp_all

end LabelTable

namespace Direct

variable {direct next : Direct} {element : Element}

/-- What `touchesVoid` looks for. -/
theorem touchesVoid_eq_false_iff :
    touchesVoid element = false ↔
      ∀ slot, element.localSlot? ≠ some (slot, .void) := by
  unfold touchesVoid
  constructor
  · intro h slot hslot
    rw [hslot] at h
    cases h
  · intro h
    split
    · next slot hslot => exact absurd hslot (h slot)
    · rfl

theorem labels_noteLocals :
    (direct.noteLocals element).labels = direct.labels := by
  unfold noteLocals
  split <;> rfl

/-- Noting the slots of an element moves their highest end. -/
theorem noteLocals_eq :
    direct.noteLocals element =
      { direct with maxLocals := max direct.maxLocals element.slotEnd } := by
  unfold noteLocals ElementOf.slotEnd
  cases element.localSlot? with
  | none => simp
  | some place => rfl

/-- An instruction is taken if it can be encoded and its pieces fit. -/
theorem push_instruction (hpseudo : element.isPseudo = false)
    (hvoid : touchesVoid element = false) :
    direct.push element =
      match element.pieces direct.code.size with
      | .error fault => (.error fault, direct.noteLocals element)
      | .ok pieces =>
          (direct.noteLocals element).writePieces direct.code.size pieces := by
  have hnot : ¬ touchesVoid element = true := by simp [hvoid]
  cases element with
  | label _ | line _ | handler _ | localVariable _ | localVariableType _ =>
    cases hpseudo
  | _ => exact if_neg hnot

theorem taken_instruction (hpseudo : element.isPseudo = false) :
    direct.taken element =
      (direct.noteLocals element).draft (direct.cellsOf element) := by
  cases element with
  | label _ | line _ | handler _ | localVariable _ | localVariableType _ =>
    cases hpseudo
  | _ =>
    simp [taken, noteLocals_eq, draft, LabelTable.placing, ElementOf.placed?,
      ElementOf.handler?, ElementOf.line?, ElementOf.localVariable?,
      ElementOf.localVariableType?]

theorem takes_instruction_iff (hpseudo : element.isPseudo = false) :
    direct.Takes element ↔
      touchesVoid element = false ∧
        (∃ pieces, element.pieces direct.code.size = .ok pieces) ∧
        ∀ piece ∈ element.piecesAt direct.code.size,
          piece.Fits direct.labels direct.code.size := by
  constructor
  · intro h
    exact ⟨h.not_void, h.encodable, h.fits⟩
  · intro h
    obtain ⟨hvoid, hencodable, hfits⟩ := h
    refine ⟨hvoid, ?_, hencodable, hfits⟩
    cases element with
    | label _ => cases hpseudo
    | _ => exact fun _ h => by cases h

/-- A pseudo-element takes no room in the code. -/
theorem pieces_of_isPseudo (start : Nat) (hpseudo : element.isPseudo = true) :
    element.pieces start = .ok [] := by
  cases element with
  | label _ | line _ | handler _ | localVariable _ | localVariableType _ => rfl
  | _ => cases hpseudo

theorem takes_pseudo_iff (hpseudo : element.isPseudo = true) :
    direct.Takes element ↔
      touchesVoid element = false ∧
        ∀ label, element.placed? = some label →
          direct.labels.position? label = none := by
  constructor
  · intro h
    exact ⟨h.not_void, h.unplaced⟩
  · intro h
    obtain ⟨hvoid, hunplaced⟩ := h
    have hpieces := pieces_of_isPseudo direct.code.size hpseudo
    refine ⟨hvoid, hunplaced, ⟨[], hpieces⟩, ?_⟩
    simp [Element.piecesAt_eq hpieces]

/-- Pushing an instruction. -/
theorem push_instruction_iff (hpseudo : element.isPseudo = false) :
    direct.push element = (.ok (), next) ↔
      direct.Takes element ∧ next = direct.taken element := by
  rw [takes_instruction_iff hpseudo, taken_instruction hpseudo]
  by_cases hvoid : touchesVoid element = false
  · rw [push_instruction hpseudo hvoid]
    cases hpieces : element.pieces direct.code.size with
    | error fault => simp
    | ok pieces =>
      have hat := Element.piecesAt_eq hpieces
      simp only [hvoid, hat, cellsOf, true_and]
      constructor
      · intro hwrite
        have hfits := fits_of_writePieces hwrite
        rw [writePieces_eq hfits, labels_noteLocals] at hwrite
        rw [labels_noteLocals] at hfits
        cases hwrite
        exact ⟨⟨⟨pieces, rfl⟩, hfits⟩, rfl⟩
      · intro h
        obtain ⟨⟨-, hfits⟩, rfl⟩ := h
        rw [writePieces_eq (by rwa [labels_noteLocals]), labels_noteLocals]
  · simp [push, hvoid]

/-- Pushing a pseudo-element. -/
theorem push_pseudo_iff (hpseudo : element.isPseudo = true) :
    direct.push element = (.ok (), next) ↔
      direct.Takes element ∧ next = direct.taken element := by
  rw [takes_pseudo_iff hpseudo]
  by_cases hvoid : touchesVoid element = false
  · have hcells : direct.draft (direct.cellsOf element) = direct := by
      simp [cellsOf, Element.piecesAt_eq (pieces_of_isPseudo _ hpseudo)]
    cases element with
    | label label =>
      by_cases hbound : direct.labels.isBound label = true
      · have : direct.labels.position? label ≠ none := by
          intro hnone
          rw [LabelTable.isBound_eq_false_iff.2 hnone] at hbound
          cases hbound
        simp [push, hvoid, labels_noteLocals, hbound, ElementOf.placed?, this]
      · have hnone : direct.labels.position? label = none :=
          LabelTable.isBound_eq_false_iff.1 (by simpa using hbound)
        simp [push, hvoid, hbound, ElementOf.placed?, hnone,
          taken, hcells, noteLocals_eq, ElementOf.slotEnd, ElementOf.localSlot?,
          LabelTable.placing, ElementOf.handler?, ElementOf.line?,
          ElementOf.localVariable?, ElementOf.localVariableType?, eq_comm]
    | line _ | handler _ | localVariable _ | localVariableType _ =>
      simp [push, hvoid, ElementOf.placed?, taken, hcells, noteLocals_eq,
        LabelTable.placing, ElementOf.handler?, ElementOf.line?,
        ElementOf.localVariable?, ElementOf.localVariableType?, eq_comm]
    | _ => cases hpseudo
  · simp [push, hvoid]

/-- **What a push does**, unless it is refused. -/
theorem push_eq_ok_iff :
    direct.push element = (.ok (), next) ↔
      direct.Takes element ∧ next = direct.taken element := by
  cases hpseudo : element.isPseudo with
  | false => exact push_instruction_iff hpseudo
  | true => exact push_pseudo_iff hpseudo

end Direct

end JvmMethod
