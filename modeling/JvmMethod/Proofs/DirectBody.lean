import Mathlib.Data.List.Forall2
import JvmMethod.Proofs.DirectPush
import JvmMethod.Proofs.TerminalRuns

/-!
# What the direct terminal has encoded

`Direct.Encodes` ties the state of a direct terminal to the list of the elements
that it took: the size of the code, the places of the labels and the side tables
are those of the layout, and the code is a draft of the pieces of the
instructions.  A draft does not know where its holes will point, so its bytes
are compared under every later table of labels.

* `Encodes.run`: every run without a failing push leads to such a state.
* `finish_eq_ok_iff`: what finishing does, step by step.
* `Encodes.code_eq`, `Encodes.resolvable`: the finished code is the pieces, one
  behind the other, and every offset in them could be written.
-/

namespace JvmMethod

/-- The later table has all places of the earlier one. -/
def LabelTable.Extends (later earlier : LabelTable) : Prop :=
  ∀ label position, earlier.position? label = some position →
    later.position? label = some position

/-- All labels that are placed are within the longest code that a method may
have. -/
def LabelTable.WithinCode (labels : LabelTable) : Prop :=
  ∀ label position, labels.position? label = some position → position ≤ 65535

namespace Piece

/-- The bytes of a piece of an instruction at `start`. -/
def resolved (labels : LabelTable) (start : Nat) : Piece → List UInt8
  | .byte value => [value]
  | .near label => offsetBytes16 (labels.displacement start label)
  | .far label => offsetBytes32 (labels.displacement start label)

/-- The label of a piece has a place, and a near one is not too far away. -/
def IsResolvable (labels : LabelTable) (start : Nat) : Piece → Prop
  | .byte _ => True
  | .near label =>
      ∃ target, labels.position? label = some target ∧
        fitsInt16 ((target : Int) - start) = true
  | .far label => ∃ target, labels.position? label = some target

variable {earlier later : LabelTable} {start : Nat} {piece : Piece}

@[simp] theorem length_resolved (labels : LabelTable) :
    (piece.resolved labels start).length = piece.size := by
  cases piece <;> rfl

theorem cellsSize_cells : cellsSize (piece.cells earlier start) = piece.size := by
  cases piece with
  | byte value => rfl
  | near label | far label =>
    simp only [cells]
    split <;> rfl

/-- However early a piece was written, in the end it has its bytes. -/
theorem flatMap_filled_cells (h : later.Extends earlier) :
    (piece.cells earlier start).flatMap (Cell.filled later) =
      piece.resolved later start := by
  cases piece with
  | byte value => rfl
  | near label | far label =>
    simp only [cells, resolved]
    cases hplace : earlier.position? label with
    | none => simp [Cell.filled]
    | some target =>
      simp only [flatMap_filled_map_byte, LabelTable.displacement,
        h label target hplace, Option.getD_some]

/-- A piece that fitted when it was written can be filled exactly if it can be
resolved. -/
theorem isFillable_cells_iff (h : later.Extends earlier)
    (hfits : piece.Fits earlier start) :
    (∀ cell ∈ piece.cells earlier start, cell.IsFillable later) ↔
      piece.IsResolvable later start := by
  have hbytes (bytes : List UInt8) :
      ∀ cell ∈ bytes.map Cell.byte, cell.IsFillable later := by
    simp [Cell.IsFillable]
  cases piece with
  | byte value => simp [cells, Cell.IsFillable, IsResolvable]
  | near label =>
    cases hplace : earlier.position? label with
    | none => simp [cells, hplace, Cell.IsFillable, IsResolvable]
    | some target =>
      simp only [cells, hplace]
      exact iff_of_true (hbytes _)
        ⟨target, h label target hplace, hfits target hplace⟩
  | far label =>
    cases hplace : earlier.position? label with
    | none => simp [cells, hplace, Cell.IsFillable, IsResolvable]
    | some target =>
      simp only [cells, hplace]
      exact iff_of_true (hbytes _) ⟨target, h label target hplace⟩

end Piece

/-- The bytes of the pieces of several instructions. -/
def placedBytes (labels : LabelTable) (pieces : List (Nat × Piece)) :
    List UInt8 :=
  pieces.flatMap fun (start, piece) => piece.resolved labels start

@[simp] theorem length_flatMap_resolved (labels : LabelTable) (start : Nat)
    (pieces : List Piece) :
    (pieces.flatMap (Piece.resolved labels start)).length =
      piecesSize pieces := by
  induction pieces with
  | nil => rfl
  | cons piece pieces ih => simp [ih]

@[simp] theorem placedBytes_append (labels : LabelTable)
    (pieces others : List (Nat × Piece)) :
    placedBytes labels (pieces ++ others) =
      placedBytes labels pieces ++ placedBytes labels others :=
  List.flatMap_append

@[simp] theorem placedBytes_map (labels : LabelTable) (start : Nat)
    (pieces : List Piece) :
    placedBytes labels (pieces.map (start, ·)) =
      pieces.flatMap (Piece.resolved labels start) :=
  List.flatMap_map ..

/-- The cells are a draft of the pieces, made while the labels of `earlier` had
places. -/
structure IsDraftOf (earlier : LabelTable) (cells : List Cell)
    (pieces : List (Nat × Piece)) : Prop where
  filled : ∀ later : LabelTable, later.Extends earlier →
    cells.flatMap (Cell.filled later) = placedBytes later pieces
  fillable : ∀ later : LabelTable, later.Extends earlier →
    ((∀ cell ∈ cells, cell.IsFillable later) ↔
      ∀ start piece, (start, piece) ∈ pieces → piece.IsResolvable later start)

namespace IsDraftOf

variable {earlier later : LabelTable} {cells more : List Cell}
  {pieces others : List (Nat × Piece)}

theorem extend (h : IsDraftOf earlier cells pieces)
    (hextends : later.Extends earlier) : IsDraftOf later cells pieces where
  filled last hlast := h.filled last fun label position hplace =>
    hlast label position (hextends label position hplace)
  fillable last hlast := h.fillable last fun label position hplace =>
    hlast label position (hextends label position hplace)

theorem append (hleft : IsDraftOf earlier cells pieces)
    (hright : IsDraftOf earlier more others) :
    IsDraftOf earlier (cells ++ more) (pieces ++ others) where
  filled later hlater := by
    simp [hleft.filled later hlater, hright.filled later hlater]
  fillable later hlater := by
    have hl := hleft.fillable later hlater
    have hr := hright.fillable later hlater
    simp only [List.mem_append, or_imp, forall_and, hl, hr]

/-- The cells of an instruction are a draft of its pieces. -/
theorem of_fits {start : Nat} {pieces : List Piece}
    (h : ∀ piece ∈ pieces, piece.Fits earlier start) :
    IsDraftOf earlier (pieces.flatMap (Piece.cells earlier start))
      (pieces.map (start, ·)) := by
  induction pieces with
  | nil => exact ⟨fun _ _ => rfl, fun _ _ => by simp⟩
  | cons piece pieces ih =>
    have hrest := ih fun piece hp => h piece (List.mem_cons_of_mem _ hp)
    have hfirst : IsDraftOf earlier (piece.cells earlier start)
        [(start, piece)] := by
      constructor
      · intro later hlater
        simpa [placedBytes] using Piece.flatMap_filled_cells hlater
      · intro later hlater
        rw [Piece.isFillable_cells_iff hlater (h piece List.mem_cons_self)]
        constructor
        · intro hresolvable other piece hmem
          cases List.mem_singleton.1 hmem
          exact hresolvable
        · exact fun hall => hall start piece List.mem_cons_self
    exact hfirst.append hrest

end IsDraftOf

/-- The state holds the elements, encoded. -/
structure Direct.Encodes (elements : List Element) (direct : Direct) : Prop where
  code_size : direct.code.size = endOffset 0 elements
  position? : ∀ label,
    direct.labels.position? label = labelOffset? elements label
  nodup : (elements.filterMap ElementOf.placed?).Nodup
  encodable : ∀ start element, (start, element) ∈ layout 0 elements →
    ∃ pieces, element.pieces start = .ok pieces
  drafts : ∃ cells, direct.Drafts cells ∧
    IsDraftOf direct.labels cells (placedPieces 0 elements)
  handlers : direct.handlers.toList = elements.filterMap ElementOf.handler?
  lines : direct.lines.toList = (layout 0 elements).filterMap
    fun (start, element) => element.line?.map fun line =>
      { start := UInt16.ofNat start, line : LineEntry }
  localVariables : direct.localVariables.toList =
    elements.filterMap ElementOf.localVariable?
  localVariableTypes : direct.localVariableTypes.toList =
    elements.filterMap ElementOf.localVariableType?

namespace Direct

variable {direct next : Direct} {elements : List Element} {element : Element}

theorem cellsSize_cellsOf (direct : Direct) (element : Element) :
    cellsSize (direct.cellsOf element) =
      piecesSize (element.piecesAt direct.code.size) := by
  simp only [cellsOf]
  induction element.piecesAt direct.code.size with
  | nil => rfl
  | cons piece pieces ih =>
    simp [Piece.cellsSize_cells, ih]

theorem Takes.piecesSize (h : direct.Takes element) :
    piecesSize (element.piecesAt direct.code.size) =
      element.size direct.code.size := by
  obtain ⟨pieces, hpieces⟩ := h.encodable
  rw [Element.piecesAt_eq hpieces]
  exact pieces_size hpieces

theorem Takes.size_code_taken (h : direct.Takes element) :
    (direct.taken element).code.size =
      direct.code.size + element.size direct.code.size := by
  have hcells := cellsSize_cellsOf direct element
  rw [h.piecesSize] at hcells
  simp only [taken, draft, Array.size_append, List.size_toArray]
  rw [← hcells, cellsSize]

theorem Takes.extends_taken (h : direct.Takes element) :
    (direct.taken element).labels.Extends direct.labels := by
  intro label position hplace
  simp only [taken]
  rw [LabelTable.position?_placing h.unplaced, hplace, Option.some_or]

namespace Encodes

theorem start (initial : Slot) : Encodes [] (withInitialLocals initial) where
  code_size := rfl
  position? _ := rfl
  nodup := List.nodup_nil
  encodable _ _ h := by cases h
  drafts := ⟨[], ⟨rfl, rfl⟩, ⟨fun _ _ => rfl, fun _ _ => by simp [placedPieces]⟩⟩
  handlers := rfl
  lines := rfl
  localVariables := rfl
  localVariableTypes := rfl

theorem taken (h : Encodes elements direct) (htakes : direct.Takes element) :
    Encodes (elements ++ [element]) (direct.taken element) where
  code_size := by
    rw [htakes.size_code_taken, h.code_size, endOffset_append]
    rfl
  position? label := by
    simp only [Direct.taken]
    rw [LabelTable.position?_placing htakes.unplaced, labelOffset?_concat,
      h.position?, h.code_size]
  nodup := by
    rw [List.filterMap_append]
    refine List.nodup_append.2 ⟨h.nodup, ?_, ?_⟩
    · cases hplaced : element.placed? <;> simp [hplaced]
    · intro label hearlier other hplaced hsame
      obtain rfl := hsame
      have hplaced : element.placed? = some label := by
        simpa [List.mem_filterMap] using hplaced
      have := htakes.unplaced label hplaced
      rw [h.position?] at this
      rw [← isSome_labelOffset?, this] at hearlier
      cases hearlier
  encodable start other hmem := by
    rw [layout_append, List.mem_append] at hmem
    rcases hmem with hmem | hmem
    · exact h.encodable start other hmem
    · cases List.mem_singleton.1 hmem
      rw [← h.code_size]
      exact htakes.encodable
  drafts := by
    obtain ⟨cells, hdrafts, hdraft⟩ := h.drafts
    refine ⟨cells ++ direct.cellsOf element, ?_, ?_⟩
    · exact ⟨(hdrafts.draft).code, (hdrafts.draft).fixups⟩
    · rw [placedPieces_append]
      refine ((hdraft.append ?_).extend htakes.extends_taken)
      have := IsDraftOf.of_fits htakes.fits
      simpa [placedPieces, h.code_size, cellsOf] using this
  handlers := by
    simp [Direct.taken, h.handlers, List.filterMap_cons]
    cases element.handler? <;> rfl
  lines := by
    simp [Direct.taken, h.lines, layout, h.code_size, List.filterMap_cons]
    cases element.line? <;> rfl
  localVariables := by
    simp [Direct.taken, h.localVariables, List.filterMap_cons]
    cases element.localVariable? <;> rfl
  localVariableTypes := by
    simp [Direct.taken, h.localVariableTypes, List.filterMap_cons]
    cases element.localVariableType? <;> rfl

/-- Neither the number of labels nor the number of slots is encoded. -/
theorem withLabels (h : Encodes elements direct) {labels : LabelTable}
    (hplaces : ∀ label, labels.position? label = direct.labels.position? label)
    (topLocal : Slot) (maxLocals : Nat) :
    Encodes elements { direct with labels, topLocal, maxLocals } where
  code_size := h.code_size
  position? label := (hplaces label).trans (h.position? label)
  nodup := h.nodup
  encodable := h.encodable
  drafts := by
    obtain ⟨cells, hdrafts, hdraft⟩ := h.drafts
    refine ⟨cells, ⟨hdrafts.code, hdrafts.fixups⟩, hdraft.extend ?_⟩
    intro label position hplace
    exact (hplaces label).trans hplace
  handlers := h.handlers
  lines := h.lines
  localVariables := h.localVariables
  localVariableTypes := h.localVariableTypes

theorem freshLabel (h : Encodes elements direct) :
    Encodes elements direct.freshLabel.2 :=
  h.withLabels (LabelTable.position?_fresh direct.labels) _ _

theorem allocate (h : Encodes elements direct) (kind : Kind) :
    Encodes elements (direct.allocate kind).2 := by
  unfold Direct.allocate
  split
  · exact h
  · exact h.withLabels (fun _ => rfl) _ _

/-- **After a run without a failing push** the terminal holds the elements that
were pushed, encoded. -/
theorem run {operations : List Operation} (h : Encodes elements direct)
    (hno : NoPushFails (performAll perform direct operations).1) :
    Encodes (elements ++ pushedElements operations)
      (performAll perform direct operations).2 := by
  refine run_preserves Encodes ?_ freshLabel (fun kind h => h.allocate kind)
    elements h hno
  intro elements direct element next h hpush
  obtain ⟨htakes, rfl⟩ := push_eq_ok_iff.1 hpush
  exact h.taken htakes

end Encodes

/-- **What finishing does.** -/
theorem finish_eq_ok_iff {body : MethodBody} :
    direct.finish = .ok body ↔
      direct.code.size ≤ 65535 ∧
      direct.fixups.foldlM (applyFixup direct.labels) direct.code =
        .ok body.code ∧
      direct.handlers.mapM (resolveHandler direct.labels) =
        .ok body.handlers ∧
      direct.localVariables.mapM (resolveVariable direct.labels) =
        .ok body.localVariables ∧
      direct.localVariableTypes.mapM (resolveVariableType direct.labels) =
        .ok body.localVariableTypes ∧
      direct.neededLocals = .ok body.maxLocals ∧
      body.labelOffsets =
        direct.labels.positions.map (Option.map UInt16.ofNat) ∧
      body.lines = direct.lines := by
  by_cases hlong : 65535 < direct.code.size
  · have : ¬ direct.code.size ≤ 65535 := by omega
    simp [finish, hlong, this]
  · have hshort : direct.code.size ≤ 65535 := by omega
    simp only [finish, hlong, if_false, bind_eq_ok, hshort, true_and, pure,
      Except.pure, Except.ok.injEq]
    constructor
    · intro h
      obtain ⟨_, hcode, _, hhandlers, _, hvariables, _, htypes, _, hmax, rfl⟩ := h
      exact ⟨hcode, hhandlers, hvariables, htypes, hmax, rfl, rfl⟩
    · intro h
      obtain ⟨hcode, hhandlers, hvariables, htypes, hmax, hoffsets, hlines⟩ := h
      refine ⟨_, hcode, _, hhandlers, _, hvariables, _, htypes, _, hmax, ?_⟩
      rw [← hoffsets, ← hlines]

namespace Encodes

variable {body : MethodBody}

/-- Filling in the fixups succeeds exactly if all pieces can be resolved, and
gives their bytes. -/
theorem applyFixups_iff (h : Encodes elements direct) {code : Array UInt8} :
    direct.fixups.foldlM (applyFixup direct.labels) direct.code = .ok code ↔
      (∀ start piece, (start, piece) ∈ placedPieces 0 elements →
        piece.IsResolvable direct.labels start) ∧
      code.toList = placedBytes direct.labels (placedPieces 0 elements) := by
  obtain ⟨cells, hdrafts, hdraft⟩ := h.drafts
  have hself : direct.labels.Extends direct.labels := fun _ _ hplace => hplace
  rw [foldlM_applyFixup_iff hdrafts, hdraft.fillable _ hself,
    hdraft.filled _ hself]

/-- Every label that an instruction mentions has been placed, in reach. -/
theorem resolvable (h : Encodes elements direct) (hf : direct.finish = .ok body)
    {start : Nat} {piece : Piece}
    (hmem : (start, piece) ∈ placedPieces 0 elements) :
    piece.IsResolvable direct.labels start :=
  (h.applyFixups_iff.1 (finish_eq_ok_iff.1 hf).2.1).1 start piece hmem

/-- The finished code is the pieces of the instructions. -/
theorem code_eq (h : Encodes elements direct) (hf : direct.finish = .ok body) :
    body.code.toList =
      placedBytes direct.labels (placedPieces 0 elements) :=
  (h.applyFixups_iff.1 (finish_eq_ok_iff.1 hf).2.1).2

theorem endOffset_le (h : Encodes elements direct)
    (hf : direct.finish = .ok body) : endOffset 0 elements ≤ 65535 := by
  rw [← h.code_size]
  exact (finish_eq_ok_iff.1 hf).1

/-- No offset is cut when it is put into a word. -/
theorem labelOffset?_le (h : Encodes elements direct)
    (hf : direct.finish = .ok body) {label : Label} {offset : Nat}
    (hplace : labelOffset? elements label = some offset) : offset ≤ 65535 :=
  Nat.le_trans (JvmMethod.labelOffset?_le hplace) (h.endOffset_le hf)

theorem withinCode (h : Encodes elements direct)
    (hf : direct.finish = .ok body) : direct.labels.WithinCode := by
  intro label position hplace
  rw [h.position?] at hplace
  exact h.labelOffset?_le hf hplace

end Encodes

end Direct

end JvmMethod
