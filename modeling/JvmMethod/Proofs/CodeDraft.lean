import JvmMethod.Direct
import JvmMethod.Proofs.WordReading

/-!
# Code with holes

While a body is under construction its code is a list of *cells*: bytes that
stay, and holes, which hold zeros until the label they wait for has a place.
`Direct.Drafts` says that the code array and the list of fixups are exactly
what a list of cells looks like: the fixups lie inside the code, one behind the
other, and over zeros.

* `writePieces_eq`: writing an instruction appends cells.  An offset to a label
  that has a place is a byte cell already, any other one is a hole.
* `foldlM_applyFixup_iff`: filling in the fixups succeeds exactly if every hole
  can be filled, and then every cell has become its bytes.
-/

namespace JvmMethod

/-- A part of the code before the end. -/
inductive Cell where
  | byte (value : UInt8)
  /-- Zeros for the offset of a label, counted from the instruction at
  `start`. -/
  | hole (start : Nat) (label : Label) (isFar : Bool)

/-- How far a label is from an instruction at `start`. -/
def LabelTable.displacement (labels : LabelTable) (start : Nat)
    (label : Label) : Int :=
  ((labels.position? label).getD 0 : Nat) - start

namespace Cell

/-- The number of bytes of a cell. -/
def size : Cell → Nat
  | .byte _ => 1
  | .hole _ _ isFar => if isFar then 4 else 2

/-- The bytes of a cell before the end. -/
def drafted : Cell → List UInt8
  | .byte value => [value]
  | .hole _ _ isFar => List.replicate (if isFar then 4 else 2) 0

/-- The bytes of a cell once the labels have their places. -/
def filled (labels : LabelTable) : Cell → List UInt8
  | .byte value => [value]
  | .hole start label isFar =>
      if isFar then offsetBytes32 (labels.displacement start label)
      else offsetBytes16 (labels.displacement start label)

/-- The label of a hole has a place, and not too far away. -/
def IsFillable (labels : LabelTable) : Cell → Prop
  | .byte _ => True
  | .hole start label isFar =>
      ∃ target, labels.position? label = some target ∧
        (isFar = false → fitsInt16 ((target : Int) - start) = true)

@[simp] theorem length_drafted (cell : Cell) : cell.drafted.length = cell.size := by
  cases cell with
  | byte value => rfl
  | hole start label isFar => simp [drafted, size]

@[simp] theorem length_filled (labels : LabelTable) (cell : Cell) :
    (cell.filled labels).length = cell.size := by
  cases cell with
  | byte value => rfl
  | hole start label isFar => cases isFar <;> rfl

end Cell

/-- The number of bytes of cells. -/
def cellsSize (cells : List Cell) : Nat :=
  (cells.flatMap Cell.drafted).length

/-- The fixups for the holes of cells of which the first is at `position`. -/
def fixupsFrom (position : Nat) : List Cell → List Fixup
  | [] => []
  | .byte _ :: cells => fixupsFrom (position + 1) cells
  | .hole start label isFar :: cells =>
      { label, start, operand := position, isFar } ::
        fixupsFrom (position + if isFar then 4 else 2) cells

/-- The code and the fixups are those of the cells. -/
structure Direct.Drafts (direct : Direct) (cells : List Cell) : Prop where
  code : direct.code.toList = cells.flatMap Cell.drafted
  fixups : direct.fixups.toList = fixupsFrom 0 cells

/-- The cells that a piece of an instruction at `start` is written as. -/
def Piece.cells (labels : LabelTable) (start : Nat) : Piece → List Cell
  | .byte value => [.byte value]
  | .near label =>
      match labels.position? label with
      | none => [.hole start label false]
      | some target => (offsetBytes16 (target - start)).map .byte
  | .far label =>
      match labels.position? label with
      | none => [.hole start label true]
      | some target => (offsetBytes32 (target - start)).map .byte

/-- A near label that has a place already is not too far away. -/
def Piece.Fits (labels : LabelTable) (start : Nat) : Piece → Prop
  | .near label =>
      ∀ target, labels.position? label = some target →
        fitsInt16 ((target : Int) - start) = true
  | _ => True

/-- The body with cells appended. -/
def Direct.draft (direct : Direct) (cells : List Cell) : Direct :=
  { direct with
    code := direct.code ++ (cells.flatMap Cell.drafted).toArray
    fixups := direct.fixups ++ (fixupsFrom direct.code.size cells).toArray }

section Cells

variable (position : Nat) (cells more : List Cell) (cell : Cell)

@[simp] theorem cellsSize_nil : cellsSize [] = 0 := rfl

@[simp] theorem cellsSize_cons :
    cellsSize (cell :: cells) = cell.size + cellsSize cells := by
  simp [cellsSize]

@[simp] theorem cellsSize_append :
    cellsSize (cells ++ more) = cellsSize cells + cellsSize more := by
  simp [cellsSize]

theorem fixupsFrom_append :
    fixupsFrom position (cells ++ more) =
      fixupsFrom position cells ++
        fixupsFrom (position + cellsSize cells) more := by
  induction cells generalizing position with
  | nil => rfl
  | cons cell cells ih =>
    cases cell <;>
      simp [fixupsFrom, ih, Cell.size, Nat.add_assoc]

theorem flatMap_drafted_map_byte (bytes : List UInt8) :
    (bytes.map Cell.byte).flatMap Cell.drafted = bytes := by
  induction bytes with
  | nil => rfl
  | cons byte bytes ih => simp [Cell.drafted, ih]

theorem flatMap_filled_map_byte (labels : LabelTable) (bytes : List UInt8) :
    (bytes.map Cell.byte).flatMap (Cell.filled labels) = bytes := by
  induction bytes with
  | nil => rfl
  | cons byte bytes ih => simp [Cell.filled, ih]

theorem fixupsFrom_map_byte (bytes : List UInt8) :
    fixupsFrom position (bytes.map Cell.byte) = [] := by
  induction bytes generalizing position with
  | nil => rfl
  | cons byte bytes ih => exact ih _

end Cells

namespace Direct

section Draft

variable {direct : Direct} {cells more : List Cell}

theorem Drafts.code_size (h : direct.Drafts cells) :
    direct.code.size = cellsSize cells := by
  rw [← Array.length_toList, h.code, cellsSize]

@[simp] theorem draft_nil : direct.draft [] = direct := by
  simp [draft, fixupsFrom]

theorem draft_append :
    direct.draft (cells ++ more) = (direct.draft cells).draft more := by
  simp [draft, fixupsFrom_append, cellsSize]

/-- Appending cells to a drafted body. -/
theorem Drafts.draft (h : direct.Drafts cells) :
    (direct.draft more).Drafts (cells ++ more) where
  code := by simp [Direct.draft, h.code]
  fixups := by
    simp [Direct.draft, h.fixups, fixupsFrom_append, h.code_size]

theorem foldl_push_eq (code : Array UInt8) (bytes : List UInt8) :
    bytes.foldl Array.push code = code ++ bytes.toArray := by
  induction bytes generalizing code with
  | nil => simp
  | cons byte bytes ih => simp [ih]

theorem writeBytes_eq_draft (bytes : List UInt8) :
    direct.writeBytes bytes = direct.draft (bytes.map .byte) := by
  simp only [writeBytes, Direct.draft, foldl_push_eq, flatMap_drafted_map_byte,
    fixupsFrom_map_byte, Array.append_empty]

theorem writeFixup_eq_draft (start : Nat) (label : Label) (isFar : Bool) :
    direct.writeFixup start label isFar =
      direct.draft [.hole start label isFar] := by
  simp [writeFixup, Direct.draft, fixupsFrom, Cell.drafted]

end Draft

section Writing

variable {direct next : Direct} {start : Nat} {piece : Piece}
  {pieces : List Piece}

/-- A piece that fits is written as its cells. -/
theorem writePiece_eq (h : piece.Fits direct.labels start) :
    direct.writePiece start piece =
      (.ok (), direct.draft (piece.cells direct.labels start)) := by
  cases piece with
  | byte value => simp [writePiece, Piece.cells, Direct.draft, Cell.drafted, fixupsFrom]
  | near label =>
    simp only [writePiece, Piece.cells]
    cases hplace : direct.labels.position? label with
    | none => simp only [writeFixup_eq_draft]
    | some target =>
      have hfits := h target hplace
      simp only [hfits, if_true, writeBytes_eq_draft]
  | far label =>
    simp only [writePiece, Piece.cells]
    cases hplace : direct.labels.position? label with
    | none => simp only [writeFixup_eq_draft]
    | some target => simp only [writeBytes_eq_draft]

theorem fits_of_writePiece (h : direct.writePiece start piece = (.ok (), next)) :
    piece.Fits direct.labels start := by
  cases piece with
  | byte value => trivial
  | far label => trivial
  | near label =>
    intro target hplace
    simp only [writePiece, hplace] at h
    by_cases hfits : fitsInt16 ((target : Int) - start) = true
    · exact hfits
    · simp [hfits] at h

/-- **Writing an instruction appends cells** and changes nothing else, provided
that every near label that has a place is not too far away. -/
theorem writePieces_eq (h : ∀ piece ∈ pieces, piece.Fits direct.labels start) :
    direct.writePieces start pieces =
      (.ok (), direct.draft
        (pieces.flatMap (Piece.cells direct.labels start))) := by
  induction pieces generalizing direct with
  | nil => simp [writePieces]
  | cons piece pieces ih =>
    have hpiece := writePiece_eq (h piece List.mem_cons_self)
    simp only [writePieces, hpiece, List.flatMap_cons, draft_append]
    exact ih fun other hother => h other (List.mem_cons_of_mem _ hother)

theorem fits_of_writePieces
    (h : direct.writePieces start pieces = (.ok (), next)) :
    ∀ piece ∈ pieces, piece.Fits direct.labels start := by
  induction pieces generalizing direct with
  | nil => exact fun _ hp => by cases hp
  | cons piece pieces ih =>
    simp only [writePieces] at h
    split at h
    · cases h
    · next middle hwrite =>
      have hfits := fits_of_writePiece hwrite
      rw [writePiece_eq hfits] at hwrite
      cases hwrite
      intro other hother
      rcases List.mem_cons.1 hother with rfl | hother
      · exact hfits
      · exact ih h other hother

end Writing

/-- Patching overwrites as many bytes as it is given. -/
theorem toList_patch {code : Array UInt8} {before old after bytes : List UInt8}
    (hcode : code.toList = before ++ old ++ after)
    (hlength : old.length = bytes.length) :
    (patch code before.length bytes).toList = before ++ bytes ++ after := by
  induction bytes generalizing code before old with
  | nil =>
    have hold : old = [] := List.eq_nil_of_length_eq_zero hlength
    simpa [patch, hold] using hcode
  | cons byte bytes ih =>
    cases old with
    | nil => cases hlength
    | cons first old =>
      have hset : (code.setIfInBounds before.length byte).toList =
          (before ++ [byte]) ++ old ++ after := by
        simp [hcode]
      have := ih hset (by simpa using hlength)
      simpa [patch] using this

section Filling

variable {labels : LabelTable} {code result : Array UInt8}
  {before after : List UInt8} {start : Nat} {label : Label} {isFar : Bool}

/-- Applying one fixup fills one hole. -/
theorem applyFixup_iff
    (hcode : code.toList =
      before ++ (Cell.hole start label isFar).drafted ++ after) :
    applyFixup labels code
        { label, start, operand := before.length, isFar } = .ok result ↔
      (Cell.hole start label isFar).IsFillable labels ∧
        result.toList =
          before ++ (Cell.hole start label isFar).filled labels ++ after := by
  cases hplace : labels.position? label with
  | none => simp [applyFixup, hplace, Cell.IsFillable]
  | some target =>
    have hpatch (bytes : List UInt8)
        (hlength : (Cell.hole start label isFar).drafted.length = bytes.length) :
        patch code before.length bytes = result ↔
          result.toList = before ++ bytes ++ after := by
      rw [← toList_patch hcode hlength, Array.toList_inj, eq_comm]
    cases isFar with
    | true =>
      simpa [applyFixup, hplace, Cell.IsFillable, Cell.filled,
        LabelTable.displacement] using hpatch (offsetBytes32 (target - start)) rfl
    | false =>
      by_cases hfits : fitsInt16 ((target : Int) - start) = true
      · simpa [applyFixup, hplace, hfits, Cell.IsFillable, Cell.filled,
          LabelTable.displacement] using
            hpatch (offsetBytes16 (target - start)) rfl
      · simp [applyFixup, hplace, hfits, Cell.IsFillable]

/-- Applying the fixups of cells, behind bytes that stay. -/
theorem foldlM_fixupsFrom_iff {cells : List Cell}
    (hcode : code.toList = before ++ cells.flatMap Cell.drafted) :
    (fixupsFrom before.length cells).foldlM (applyFixup labels) code =
        .ok result ↔
      (∀ cell ∈ cells, cell.IsFillable labels) ∧
        result.toList = before ++ cells.flatMap (Cell.filled labels) := by
  induction cells generalizing before code with
  | nil =>
    have hcode' : code.toList = before := by simpa using hcode
    simp [fixupsFrom, pure, Except.pure, ← hcode', Array.toList_inj, eq_comm]
  | cons cell cells ih =>
    cases cell with
    | byte value =>
      have hbehind : code.toList =
          (before ++ [value]) ++ cells.flatMap Cell.drafted := by
        simpa [Cell.drafted] using hcode
      simpa [fixupsFrom, Cell.filled, Cell.IsFillable] using ih hbehind
    | hole start label isFar =>
      have hfirst : code.toList =
          before ++ (Cell.hole start label isFar).drafted ++
            cells.flatMap Cell.drafted := by simpa using hcode
      have hwidth : before.length + (if isFar then 4 else 2) =
          (before ++ (Cell.hole start label isFar).filled labels).length := by
        simp [Cell.size]
      simp only [fixupsFrom, List.foldlM_cons, bind_eq_ok, hwidth,
        List.forall_mem_cons, List.flatMap_cons, and_assoc]
      constructor
      · intro h
        obtain ⟨middle, hmiddle, hrest⟩ := h
        obtain ⟨hfillable, hbytes⟩ := (applyFixup_iff hfirst).1 hmiddle
        obtain ⟨hothers, hresult⟩ := (ih hbytes).1 hrest
        exact ⟨hfillable, hothers, by simpa using hresult⟩
      · intro h
        obtain ⟨hfillable, hothers, hresult⟩ := h
        refine ⟨(before ++ (Cell.hole start label isFar).filled labels ++
          cells.flatMap Cell.drafted).toArray,
          (applyFixup_iff hfirst).2 ⟨hfillable, rfl⟩, ?_⟩
        exact (ih rfl).2 ⟨hothers, by simpa using hresult⟩

/-- **Filling in the fixups of a drafted body.** -/
theorem foldlM_applyFixup_iff {direct : Direct} {cells : List Cell}
    (h : direct.Drafts cells) :
    direct.fixups.foldlM (applyFixup labels) direct.code = .ok result ↔
      (∀ cell ∈ cells, cell.IsFillable labels) ∧
        result.toList = cells.flatMap (Cell.filled labels) := by
  have hcode : direct.code.toList = [] ++ cells.flatMap Cell.drafted := h.code
  rw [← Array.foldlM_toList, h.fixups]
  exact foldlM_fixupsFrom_iff hcode

end Filling

end Direct

end JvmMethod
