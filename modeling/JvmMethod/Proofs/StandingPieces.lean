import JvmMethod.Proofs.CodeLayout
import JvmMethod.Proofs.WordReading

/-!
# Pieces that stand in code

A piece of an instruction *stands* at a position of the code if the bytes there
are the right ones: a known byte is itself, and an offset, read as a signed
number, is the true distance from the instruction to where the label is.  The
distance is a difference of natural numbers, so nothing can have been cut.

`PiecesStandAt.word`, `PiecesStandAt.targets` and `PiecesStandAt.pairs` pick the
operands of a switch.
-/

namespace JvmMethod

section Definitions

variable (code : Array UInt8) (offset? : Label → Option Nat) (start : Nat)

/-- The two bytes at the position are the distance of the label from
`start`. -/
def NearStandsAt (position : Nat) (label : Label) : Prop :=
  ∃ offset, offset? label = some offset ∧
    int16At? code position = some ((offset : Int) - start)

/-- The four bytes at the position are the distance of the label from
`start`. -/
def FarStandsAt (position : Nat) (label : Label) : Prop :=
  ∃ offset, offset? label = some offset ∧
    int32At? code position = some ((offset : Int) - start)

/-- The bytes at the position are those of a piece of the instruction at
`start`. -/
def Piece.StandsAt (position : Nat) : Piece → Prop
  | .byte value => code[position]? = some value
  | .near label => NearStandsAt code offset? start position label
  | .far label => FarStandsAt code offset? start position label

/-- The bytes from the position on are those of pieces of the instruction at
`start`. -/
def PiecesStandAt : Nat → List Piece → Prop
  | _, [] => True
  | position, piece :: pieces =>
      piece.StandsAt code offset? start position ∧
        PiecesStandAt (position + piece.size) pieces

end Definitions

section Standing

variable {code : Array UInt8} {offset? : Label → Option Nat}
  {start position : Nat} {pieces more : List Piece} {piece : Piece}
  {label : Label}

theorem NearStandsAt.isSome
    (h : NearStandsAt code offset? start position label) :
    (offset? label).isSome := by
  obtain ⟨offset, hoffset, -⟩ := h
  simp [hoffset]

theorem FarStandsAt.isSome
    (h : FarStandsAt code offset? start position label) :
    (offset? label).isSome := by
  obtain ⟨offset, hoffset, -⟩ := h
  simp [hoffset]

theorem piecesStandAt_append :
    PiecesStandAt code offset? start position (pieces ++ more) ↔
      PiecesStandAt code offset? start position pieces ∧
        PiecesStandAt code offset? start (position + piecesSize pieces) more := by
  induction pieces generalizing position with
  | nil => simp [PiecesStandAt]
  | cons piece pieces ih =>
    simp only [List.cons_append, PiecesStandAt, ih, piecesSize_cons, and_assoc,
      Nat.add_assoc]

/-- Known bytes are what one reads from their position on. -/
theorem PiecesStandAt.prefix_drop {bytes : List UInt8}
    (h : PiecesStandAt code offset? start position (knownBytes bytes)) :
    bytes <+: code.toList.drop position := by
  induction bytes generalizing position with
  | nil => exact List.nil_prefix
  | cons byte bytes ih =>
    obtain ⟨hbyte, hrest⟩ := h
    obtain ⟨hlt, hget⟩ := Array.getElem?_eq_some_iff.1 hbyte
    have hdrop : code.toList.drop position =
        byte :: code.toList.drop (position + 1) := by
      rw [List.drop_eq_getElem_cons (by simpa using hlt), ← hget,
        Array.getElem_toList]
    rw [hdrop]
    exact List.cons_prefix_cons.2 ⟨rfl, ih hrest⟩

/-- A word that stands in the code is what one reads there. -/
theorem PiecesStandAt.word {value : Int32}
    (h : PiecesStandAt code offset? start position (wordPieces value)) :
    int32At? code position = some value.toInt := by
  obtain ⟨rest, hrest⟩ := h.prefix_drop
  simp only [int32At?, ← hrest, readInt32?_bytes32, Option.map_some]

/-- The targets of a table stand four bytes apart. -/
theorem PiecesStandAt.targets {targets : List Label} {index : Nat}
    (h : PiecesStandAt code offset? start position (targets.map .far))
    (htarget : targets[index]? = some label) :
    FarStandsAt code offset? start (position + 4 * index) label := by
  induction targets generalizing position index with
  | nil => cases htarget
  | cons target targets ih =>
    obtain ⟨hfirst, hrest⟩ := h
    cases index with
    | zero =>
      cases htarget
      exact hfirst
    | succ index =>
      have := ih hrest htarget
      rwa [Piece.size, Nat.add_assoc, Nat.add_comm 4, ← Nat.mul_succ] at this

/-- The pairs of a lookup switch stand eight bytes apart, each with its key in
front. -/
theorem PiecesStandAt.pairs {targets : List (Int32 × Label)} {index : Nat}
    {key : Int32}
    (h : PiecesStandAt code offset? start position
      (targets.flatMap fun (key, target) => wordPieces key ++ [.far target]))
    (htarget : targets[index]? = some (key, label)) :
    int32At? code (position + 8 * index) = some key.toInt ∧
      FarStandsAt code offset? start (position + 8 * index + 4) label := by
  induction targets generalizing position index with
  | nil => cases htarget
  | cons target targets ih =>
    rw [List.flatMap_cons, piecesStandAt_append, piecesStandAt_append] at h
    obtain ⟨⟨hkey, hfirst⟩, hrest⟩ := h
    rw [piecesSize_wordPieces] at hfirst
    cases index with
    | zero =>
      cases htarget
      exact ⟨hkey.word, hfirst.1⟩
    | succ index =>
      have := ih hrest htarget
      simp only [piecesSize_append, piecesSize_wordPieces, piecesSize_cons,
        piecesSize_nil, Piece.size] at this
      rwa [Nat.add_assoc, Nat.add_comm (4 + (4 + 0)), ← Nat.mul_succ] at this

end Standing

end JvmMethod
