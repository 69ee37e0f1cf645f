import Mathlib
import JvmMethod.Proofs.DirectBody
import JvmMethod.Proofs.StandingPieces

/-!
# The direct terminal is a two-pass assembler

A two-pass assembler first adds up the sizes of the elements, which gives every
label its offset, and then writes all instructions with the offsets at hand.
`IsTwoPassAssembly` says what comes out of it.  The direct terminal goes through
the elements once, and patches what it could not know.

* `Direct.completes_isTwoPassAssembly`: the body that it makes is the one of a
  two-pass assembler, and a byte that was written at any moment of the run stays
  in the body, unless it is inside an operand that a fixup waits for.

All numbers in `IsTwoPassAssembly` are natural numbers and integers: the words of
the body are compared by the numbers that they stand for, so the statement fails
if anything is cut when it is put into a word.
-/

namespace JvmMethod

section Definitions

variable (code : Array UInt8) (offset? : Label → Option Nat)

/-- The operands of a branch at `start`: the distances of its targets, and the
numbers of a switch, each at its place behind the opcode. -/
def Branch.OperandsStandAt (start : Nat) : Branch Label → Prop
  | .test _ target | .goto target =>
      NearStandsAt code offset? start (start + 1) target
  | .tableSwitch default low targets =>
      let operands := start + 1 + paddingSize start
      FarStandsAt code offset? start operands default ∧
        int32At? code (operands + 4) = some low.toInt ∧
        int32At? code (operands + 8) = some (low.toInt + targets.length - 1) ∧
        ∀ (index : Nat) target, targets[index]? = some target →
          FarStandsAt code offset? start (operands + 12 + 4 * index) target
  | .lookupSwitch default targets =>
      let operands := start + 1 + paddingSize start
      FarStandsAt code offset? start operands default ∧
        int32At? code (operands + 4) = some (targets.length : Int) ∧
        ∀ (index : Nat) key target,
          (sortedTargets targets)[index]? = some (key, target) →
          int32At? code (operands + 8 + 8 * index) = some key.toInt ∧
            FarStandsAt code offset? start (operands + 12 + 8 * index) target

/-- The offsets of an exception handler are those of its labels. -/
def ResolvesHandler (entry : ExceptionHandler Label)
    (resolved : HandlerEntry) : Prop :=
  offset? entry.tryStart = some resolved.start.toNat ∧
    offset? entry.tryStop = some resolved.stop.toNat ∧
    offset? entry.handler = some resolved.handler.toNat ∧
    resolved.class? = entry.class?

/-- A local variable lives from its one label to its other label. -/
def ResolvesVariable (entry : LocalVariable Label)
    (resolved : VariableEntry) : Prop :=
  offset? entry.start = some resolved.start.toNat ∧
    offset? entry.stop =
      some (resolved.start.toNat + resolved.length.toNat) ∧
    resolved.name = entry.name ∧ resolved.type = entry.type ∧
    resolved.slot = entry.slot

/-- A local variable with a signature lives from its one label to its other
label. -/
def ResolvesVariableType (entry : LocalVariableType Label)
    (resolved : VariableTypeEntry) : Prop :=
  offset? entry.start = some resolved.start.toNat ∧
    offset? entry.stop =
      some (resolved.start.toNat + resolved.length.toNat) ∧
    resolved.name = entry.name ∧ resolved.signature = entry.signature ∧
    resolved.slot = entry.slot

end Definitions

/-- The body is what a two-pass assembler makes of the elements. -/
structure IsTwoPassAssembly (elements : List Element) (body : MethodBody) :
    Prop where
  /-- No label is placed twice. -/
  nodup : (elements.filterMap ElementOf.placed?).Nodup
  /-- The table of labels has the offset of every label that is placed, and of
  no other. -/
  labelOffset? : ∀ label,
    (body.labelOffset? label).map UInt16.toNat = labelOffset? elements label
  code_size : body.code.size = endOffset 0 elements
  /-- Every element is encoded at its offset, and as long as its format says. -/
  pieces : ∀ start element, (start, element) ∈ layout 0 elements →
    ∃ pieces, element.pieces start = .ok pieces ∧
      piecesSize pieces = element.size start ∧
      PiecesStandAt body.code (JvmMethod.labelOffset? elements) start start pieces
  operands : ∀ start branch, (start, .branch branch) ∈ layout 0 elements →
    branch.OperandsStandAt body.code (JvmMethod.labelOffset? elements) start
  lines : (body.lines.toList.map fun entry => (entry.start.toNat, entry.line)) =
    (layout 0 elements).filterMap fun (start, element) =>
      element.line?.map (start, ·)
  handlers : List.Forall₂ (ResolvesHandler (JvmMethod.labelOffset? elements))
    (elements.filterMap ElementOf.handler?) body.handlers.toList
  localVariables :
    List.Forall₂ (ResolvesVariable (JvmMethod.labelOffset? elements))
      (elements.filterMap ElementOf.localVariable?) body.localVariables.toList
  localVariableTypes :
    List.Forall₂ (ResolvesVariableType (JvmMethod.labelOffset? elements))
      (elements.filterMap ElementOf.localVariableType?)
      body.localVariableTypes.toList

/-- The position is inside the operand that a fixup will overwrite. -/
def Fixup.Covers (fixup : Fixup) (position : Nat) : Prop :=
  fixup.operand ≤ position ∧
    position < fixup.operand + if fixup.isFar then 4 else 2

/-- Every byte that is written by now stays in the body, unless a fixup waits to
overwrite it. -/
def Direct.IsKeptBy (direct : Direct) (body : MethodBody) : Prop :=
  ∀ (position : Nat) byte, direct.code[position]? = some byte →
    (∀ fixup ∈ direct.fixups, ¬ fixup.Covers position) →
    body.code[position]? = some byte

section Operands

variable {code : Array UInt8} {offset? : Label → Option Nat} {start : Nat}

/-- A table has a target at least, and its highest key is as far from the lowest
one as there are targets. -/
theorem tableHigh?_toInt {low high : Int32} {count : Nat}
    (h : tableHigh? low count = some high) :
    1 ≤ count ∧ high.toInt = low.toInt + count - 1 := by
  simp only [tableHigh?, Option.ite_none_right_eq_some, Option.some.injEq] at h
  obtain ⟨⟨hcount, -, hhigh⟩, rfl⟩ := h
  have hlow := low.le_toInt
  exact ⟨hcount, Int32.toInt_ofInt_of_le (by omega) (by omega)⟩

/-- If its pieces stand in the code, then so does every operand of a branch. -/
theorem Branch.operandsStandAt {branch : Branch Label} {pieces : List Piece}
    (hpieces : branch.pieces start = .ok pieces)
    (hsize : branch.size start ≤ 65535)
    (h : PiecesStandAt code offset? start start pieces) :
    branch.OperandsStandAt code offset? start := by
  cases branch with
  | test condition target =>
    cases hpieces
    exact h.2.1
  | goto target =>
    cases hpieces
    exact h.2.1
  | tableSwitch default low targets =>
    simp only [Branch.pieces] at hpieces
    split at hpieces
    · cases hpieces
    next high hhigh =>
    cases hpieces
    simp only [List.cons_append, List.append_assoc, PiecesStandAt,
      piecesStandAt_append, piecesSize_switchPadding, piecesSize_wordPieces,
      Piece.size] at h
    obtain ⟨-, -, hdefault, hlow, hlast, htargets⟩ := h
    refine ⟨hdefault, hlow.word, ?_, ?_⟩
    · rw [← (tableHigh?_toInt hhigh).2]
      exact hlast.word
    · intro index target htarget
      exact htargets.targets htarget
  | lookupSwitch default targets =>
    cases hpieces
    simp only [List.cons_append, List.append_assoc, PiecesStandAt,
      piecesStandAt_append, piecesSize_switchPadding, piecesSize_wordPieces,
      Piece.size] at h
    obtain ⟨-, -, hdefault, hcount, hpairs⟩ := h
    simp only [Branch.size] at hsize
    have hlength : (Int32.ofNat targets.length).toInt = targets.length :=
      Int32.toInt_ofNat_of_lt (by omega)
    refine ⟨hdefault, ?_, ?_⟩
    · rw [← hlength]
      exact hcount.word
    · intro index key target htarget
      obtain ⟨hkey, hfar⟩ := hpairs.pairs htarget
      refine ⟨hkey, ?_⟩
      rwa [Nat.add_right_comm] at hfar

end Operands

/-- Pieces stand where their bytes are, if all offsets in them are small. -/
theorem piecesStandAt_of_drop {labels : LabelTable} {code : Array UInt8}
    {start position : Nat} {pieces : List Piece} {rest : List UInt8}
    (hstart : start ≤ 65535)
    (hwithin : labels.WithinCode)
    (hresolvable : ∀ piece ∈ pieces, piece.IsResolvable labels start)
    (hcode : code.toList.drop position =
      pieces.flatMap (Piece.resolved labels start) ++ rest) :
    PiecesStandAt code labels.position? start position pieces := by
  induction pieces generalizing position with
  | nil => trivial
  | cons piece pieces ih =>
    rw [List.flatMap_cons, List.append_assoc] at hcode
    have hfirst := hresolvable piece List.mem_cons_self
    refine ⟨?_, ih (fun other h => hresolvable other (List.mem_cons_of_mem _ h)) ?_⟩
    · cases piece with
      | byte value =>
        have : (code.toList.drop position)[0]? = some value := by
          rw [hcode]
          rfl
        simpa [Piece.StandsAt] using this
      | near label =>
        obtain ⟨target, hplace, hfits⟩ := hfirst
        obtain ⟨word, hread, hword⟩ := readInt16?_offsetBytes16
          (pieces.flatMap (Piece.resolved labels start) ++ rest) hfits
        refine ⟨target, hplace, ?_⟩
        rw [int16At?, hcode]
        simp [Piece.resolved, LabelTable.displacement, hplace, hread, hword]
      | far label =>
        obtain ⟨target, hplace⟩ := hfirst
        have htarget := hwithin label target hplace
        have hlow : -65535 ≤ (target : Int) - start := by omega
        have hhigh : (target : Int) - start ≤ 65535 := by omega
        obtain ⟨word, hread, hword⟩ := readInt32?_offsetBytes32
          (pieces.flatMap (Piece.resolved labels start) ++ rest) hlow hhigh
        refine ⟨target, hplace, ?_⟩
        rw [int32At?, hcode]
        simp [Piece.resolved, LabelTable.displacement, hplace, hread, hword]
    · rw [← List.drop_drop, hcode, ← Piece.length_resolved labels,
        List.drop_left]

/-- The bytes of encodable elements fill the room that the layout has for
them. -/
theorem length_placedBytes (labels : LabelTable) {start : Nat}
    {elements : List Element}
    (h : ∀ offset element, (offset, element) ∈ layout start elements →
      ∃ pieces, element.pieces offset = .ok pieces) :
    start + (placedBytes labels (placedPieces start elements)).length =
      endOffset start elements := by
  induction elements generalizing start with
  | nil => rfl
  | cons element elements ih =>
    obtain ⟨pieces, hpieces⟩ := h start element List.mem_cons_self
    have hrest := ih fun offset other hmem =>
      h offset other (List.mem_cons_of_mem _ hmem)
    simp only [placedPieces, endOffset, Element.piecesAt_eq hpieces,
      placedBytes_append, placedBytes_map, List.length_append,
      length_flatMap_resolved, pieces_size hpieces]
    omega

/-- Going through a list succeeds if every member does. -/
theorem forall₂_of_mapM {α β : Type} {f : α → Except Fault β}
    {R : α → β → Prop} (hf : ∀ {a b}, f a = .ok b → R a b)
    {before : Array α} {after : Array β} (h : before.mapM f = .ok after) :
    List.Forall₂ R before.toList after.toList := by
  have hlist : before.toList.mapM f = .ok after.toList := by
    rw [← Array.toList_mapM, h]
    rfl
  generalize before.toList = before at hlist
  generalize after.toList = after at hlist
  induction before generalizing after with
  | nil =>
    cases hlist
    exact .nil
  | cons first before ih =>
    rw [List.mapM_cons] at hlist
    obtain ⟨resolved, hfirst, hrest⟩ := bind_eq_ok.1 hlist
    obtain ⟨others, hothers, hdone⟩ := bind_eq_ok.1 hrest
    cases hdone
    exact .cons (hf hfirst) (ih others hothers)

theorem exists_of_forall₂_of_mem {α β : Type} {R : α → β → Prop}
    {before : List α} {after : List β} {a : α} (h : List.Forall₂ R before after)
    (hmem : a ∈ before) : ∃ b, R a b := by
  induction h with
  | nil => cases hmem
  | cons hfirst _ ih =>
    rcases List.mem_cons.1 hmem with rfl | hmem
    · exact ⟨_, hfirst⟩
    · exact ih hmem

/-- Every target of a branch has an offset. -/
theorem Branch.OperandsStandAt.isSome_offset? {code : Array UInt8}
    {offset? : Label → Option Nat} {start : Nat} {branch : Branch Label}
    {label : Label} (h : branch.OperandsStandAt code offset? start)
    (hlabel : label ∈ branch.targets) : (offset? label).isSome := by
  cases branch with
  | test condition target | goto target =>
    cases List.mem_singleton.1 hlabel
    exact NearStandsAt.isSome h
  | tableSwitch default low targets =>
    obtain ⟨hdefault, -, -, htargets⟩ := h
    rcases List.mem_cons.1 hlabel with rfl | hmem
    · exact hdefault.isSome
    · obtain ⟨index, hindex⟩ := List.mem_iff_getElem?.1 hmem
      exact (htargets index label hindex).isSome
  | lookupSwitch default targets =>
    obtain ⟨hdefault, -, htargets⟩ := h
    rcases List.mem_cons.1 hlabel with rfl | hmem
    · exact hdefault.isSome
    · obtain ⟨⟨key, target⟩, hpair, rfl⟩ := List.mem_map.1 hmem
      have hsorted : (key, target) ∈ sortedTargets targets :=
        List.mem_mergeSort.2 hpair
      obtain ⟨index, hindex⟩ := List.mem_iff_getElem?.1 hsorted
      exact (htargets index key target hindex).2.isSome

/-- Every label that an element mentions has an offset. -/
theorem IsTwoPassAssembly.isSome_of_mem_labels {elements : List Element}
    {body : MethodBody} (h : IsTwoPassAssembly elements body)
    {element : Element} {label : Label} (hmem : element ∈ elements)
    (hlabel : label ∈ element.labels) :
    (JvmMethod.labelOffset? elements label).isSome := by
  cases element with
  | branch branch =>
    obtain ⟨start, hlayout⟩ := exists_mem_layout 0 hmem
    exact (h.operands start branch hlayout).isSome_offset? hlabel
  | label placed =>
    cases List.mem_singleton.1 hlabel
    exact isSome_labelOffset?.2
      (List.mem_filterMap.2 ⟨.label label, hmem, rfl⟩)
  | handler entry =>
    obtain ⟨resolved, hstart, hstop, hhandler, -⟩ :=
      exists_of_forall₂_of_mem h.handlers
        (List.mem_filterMap.2 ⟨.handler entry, hmem, rfl⟩)
    simp only [ElementOf.labels, List.mem_cons, List.not_mem_nil, or_false]
      at hlabel
    rcases hlabel with rfl | rfl | rfl
    · simp [hstart]
    · simp [hstop]
    · simp [hhandler]
  | localVariable entry =>
    obtain ⟨resolved, hstart, hstop, -⟩ :=
      exists_of_forall₂_of_mem h.localVariables
        (List.mem_filterMap.2 ⟨.localVariable entry, hmem, rfl⟩)
    simp only [ElementOf.labels, List.mem_cons, List.not_mem_nil, or_false]
      at hlabel
    rcases hlabel with rfl | rfl
    · simp [hstart]
    · simp [hstop]
  | localVariableType entry =>
    obtain ⟨resolved, hstart, hstop, -⟩ :=
      exists_of_forall₂_of_mem h.localVariableTypes
        (List.mem_filterMap.2 ⟨.localVariableType entry, hmem, rfl⟩)
    simp only [ElementOf.labels, List.mem_cons, List.not_mem_nil, or_false]
      at hlabel
    rcases hlabel with rfl | rfl
    · simp [hstart]
    · simp [hstop]
  | _ => cases hlabel

namespace Direct

section Resolving

variable {labels : LabelTable} (hwithin : labels.WithinCode)

include hwithin

theorem position?_of_resolve {label : Label} {offset : CodeOffset}
    (h : resolve labels label = .ok offset) :
    labels.position? label = some offset.toNat := by
  simp only [resolve] at h
  split at h
  · cases h
  next position hplace =>
  cases h
  have := hwithin label position hplace
  rw [hplace, UInt16.toNat_ofNat', Nat.mod_eq_of_lt (by omega)]

theorem positions_of_resolveScope {start stop : Label}
    {first : CodeOffset} {length : UInt16}
    (h : resolveScope labels start stop = .ok (first, length)) :
    labels.position? start = some first.toNat ∧
      labels.position? stop = some (first.toNat + length.toNat) := by
  simp only [resolveScope, bind_eq_ok] at h
  obtain ⟨startOffset, hstart, stopOffset, hstop, h⟩ := h
  split at h
  · cases h
  next hordered =>
  cases h
  have hle : first ≤ stopOffset := UInt16.not_lt.1 hordered
  refine ⟨position?_of_resolve hwithin hstart, ?_⟩
  rw [position?_of_resolve hwithin hstop, UInt16.toNat_sub_of_le _ _ hle,
    Nat.add_sub_cancel' (UInt16.le_iff_toNat_le.1 hle)]

theorem resolvesHandler {entry : ExceptionHandler Label}
    {resolved : HandlerEntry}
    (h : resolveHandler labels entry = .ok resolved) :
    ResolvesHandler labels.position? entry resolved := by
  simp only [resolveHandler, bind_eq_ok] at h
  obtain ⟨start, hstart, stop, hstop, handler, hhandler, h⟩ := h
  cases h
  exact ⟨position?_of_resolve hwithin hstart, position?_of_resolve hwithin hstop,
    position?_of_resolve hwithin hhandler, rfl⟩

theorem resolvesVariable {entry : LocalVariable Label}
    {resolved : VariableEntry}
    (h : resolveVariable labels entry = .ok resolved) :
    ResolvesVariable labels.position? entry resolved := by
  simp only [resolveVariable, bind_eq_ok] at h
  obtain ⟨⟨start, length⟩, hscope, h⟩ := h
  cases h
  obtain ⟨hstart, hstop⟩ := positions_of_resolveScope hwithin hscope
  exact ⟨hstart, hstop, rfl, rfl, rfl⟩

theorem resolvesVariableType {entry : LocalVariableType Label}
    {resolved : VariableTypeEntry}
    (h : resolveVariableType labels entry = .ok resolved) :
    ResolvesVariableType labels.position? entry resolved := by
  simp only [resolveVariableType, bind_eq_ok] at h
  obtain ⟨⟨start, length⟩, hscope, h⟩ := h
  cases h
  obtain ⟨hstart, hstop⟩ := positions_of_resolveScope hwithin hscope
  exact ⟨hstart, hstop, rfl, rfl, rfl⟩

end Resolving

section Body

variable {direct : Direct} {elements : List Element} {body : MethodBody}

theorem labelOffset?_eq (hf : direct.finish = .ok body) (label : Label) :
    body.labelOffset? label =
      (direct.labels.position? label).map UInt16.ofNat := by
  obtain ⟨-, -, -, -, -, -, hoffsets, -⟩ := finish_eq_ok_iff.1 hf
  simp only [MethodBody.labelOffset?, hoffsets, LabelTable.position?,
    Array.getElem?_map]
  cases direct.labels.positions[label.index]? <;> rfl

namespace Encodes

variable {start : Nat} {element : Element} {pieces : List Piece}

/-- The bytes behind the offset of an element are those of its pieces. -/
theorem drop_code (h : Encodes elements direct) (hf : direct.finish = .ok body)
    (hmem : (start, element) ∈ layout 0 elements) :
    ∃ rest, body.code.toList.drop start =
      (element.piecesAt start).flatMap (Piece.resolved direct.labels start) ++
        rest := by
  have hcode := h.code_eq hf
  have hencodable := h.encodable
  obtain ⟨before, after, rfl, rfl⟩ := exists_append_of_mem_layout hmem
  have hlength : (placedBytes direct.labels (placedPieces 0 before)).length =
      endOffset 0 before := by
    rw [← length_placedBytes direct.labels, Nat.zero_add]
    intro start element hbefore
    exact hencodable start element (by simp [hbefore])
  simp only [placedPieces_append, placedPieces, placedBytes_append,
    placedBytes_map] at hcode
  rw [hcode]
  exact ⟨_, List.drop_left' hlength⟩

/-- Every element has its pieces in the code. -/
theorem piecesStandAt (h : Encodes elements direct)
    (hf : direct.finish = .ok body)
    (hmem : (start, element) ∈ layout 0 elements)
    (hpieces : element.pieces start = .ok pieces) :
    PiecesStandAt body.code (JvmMethod.labelOffset? elements) start start
      pieces := by
  have hplaces : direct.labels.position? = JvmMethod.labelOffset? elements :=
    funext h.position?
  have hat := Element.piecesAt_eq hpieces
  have hend := h.endOffset_le hf
  have hsize := offset_add_size_le hmem
  obtain ⟨rest, hrest⟩ := h.drop_code hf hmem
  rw [hat] at hrest
  rw [← hplaces]
  refine piecesStandAt_of_drop (by omega) (h.withinCode hf) ?_ hrest
  intro piece hpiece
  rw [← hat] at hpiece
  exact h.resolvable hf (mem_placedPieces.2 ⟨element, hmem, hpiece⟩)

/-- **The finished body is that of a two-pass assembler.** -/
theorem isTwoPassAssembly (h : Encodes elements direct)
    (hf : direct.finish = .ok body) : IsTwoPassAssembly elements body := by
  have hplaces : direct.labels.position? = JvmMethod.labelOffset? elements :=
    funext h.position?
  have hwithin := h.withinCode hf
  obtain ⟨-, -, hhandlers, hvariables, htypes, -, -, hlines⟩ :=
    finish_eq_ok_iff.1 hf
  constructor
  case nodup => exact h.nodup
  case labelOffset? =>
    intro label
    rw [labelOffset?_eq hf, h.position?]
    cases hplace : JvmMethod.labelOffset? elements label with
    | none => rfl
    | some offset =>
      have := h.labelOffset?_le hf hplace
      rw [Option.map_some, Option.map_some, UInt16.toNat_ofNat',
        Nat.mod_eq_of_lt (by omega)]
  case code_size =>
    rw [← Array.length_toList, h.code_eq hf,
      ← length_placedBytes direct.labels h.encodable, Nat.zero_add]
  case pieces =>
    intro start element hmem
    obtain ⟨pieces, hpieces⟩ := h.encodable start element hmem
    exact ⟨pieces, hpieces, pieces_size hpieces, h.piecesStandAt hf hmem hpieces⟩
  case operands =>
    intro start branch hmem
    obtain ⟨pieces, hpieces⟩ := h.encodable start _ hmem
    have hend := h.endOffset_le hf
    have hsize : start + branch.size start ≤ endOffset 0 elements :=
      offset_add_size_le hmem
    exact Branch.operandsStandAt hpieces (by omega)
      (h.piecesStandAt hf hmem hpieces)
  case lines =>
    rw [hlines, h.lines, List.map_filterMap]
    refine List.filterMap_congr fun (start, element) hmem => ?_
    have hend := h.endOffset_le hf
    have hsize := offset_add_size_le hmem
    have hstart : (UInt16.ofNat start).toNat = start := by
      rw [UInt16.toNat_ofNat', Nat.mod_eq_of_lt (by omega)]
    simp [Function.comp_def, hstart]
  case handlers =>
    rw [← h.handlers, ← hplaces]
    exact forall₂_of_mapM (resolvesHandler hwithin) hhandlers
  case localVariables =>
    rw [← h.localVariables, ← hplaces]
    exact forall₂_of_mapM (resolvesVariable hwithin) hvariables
  case localVariableTypes =>
    rw [← h.localVariableTypes, ← hplaces]
    exact forall₂_of_mapM (resolvesVariableType hwithin) htypes

end Encodes

/-- Filling the holes leaves the bytes between them alone. -/
theorem getElem?_filled (labels : LabelTable) {cells : List Cell}
    {first position : Nat}
    (h : ∀ fixup ∈ fixupsFrom first cells, ¬ fixup.Covers (first + position)) :
    (cells.flatMap (Cell.filled labels))[position]? =
      (cells.flatMap Cell.drafted)[position]? := by
  induction cells generalizing first position with
  | nil => rfl
  | cons cell cells ih =>
    have hbehind (hle : cell.size ≤ position)
        (hrest : ∀ fixup ∈ fixupsFrom (first + cell.size) cells,
          ¬ fixup.Covers (first + cell.size + (position - cell.size))) :
        ((cell :: cells).flatMap (Cell.filled labels))[position]? =
          ((cell :: cells).flatMap Cell.drafted)[position]? := by
      simp only [List.flatMap_cons]
      rw [List.getElem?_append_right (by simpa using hle),
        List.getElem?_append_right (by simpa using hle), Cell.length_filled,
        Cell.length_drafted]
      exact ih hrest
    have hsum (hle : cell.size ≤ position) :
        first + cell.size + (position - cell.size) = first + position := by
      omega
    cases cell with
    | byte value =>
      cases position with
      | zero => rfl
      | succ position =>
        have hle : (Cell.byte value).size ≤ position + 1 := Nat.le_add_left ..
        refine hbehind hle ?_
        rw [hsum hle]
        exact h
    | hole start label isFar =>
      have hcovered := h _ List.mem_cons_self
      simp only [Fixup.Covers, not_and, Nat.not_lt] at hcovered
      have hle : (Cell.hole start label isFar).size ≤ position := by
        have := hcovered (by omega)
        simp only [Cell.size]
        omega
      refine hbehind hle ?_
      rw [hsum hle]
      exact fun fixup hfixup => h fixup (List.mem_cons_of_mem _ hfixup)

/-- A run goes on with the draft that there is. -/
theorem Drafts.run {cells : List Cell} {operations : List Operation}
    (h : direct.Drafts cells)
    (hno : NoPushFails (performAll perform direct operations).1) :
    ∃ more, (performAll perform direct operations).2.Drafts (cells ++ more) := by
  refine run_preserves (fun _ state => ∃ more, state.Drafts (cells ++ more))
    ?_ ?_ ?_ [] ⟨[], by simpa using h⟩ hno
  · intro _ earlier element next h hpush
    obtain ⟨more, hdrafts⟩ := h
    obtain ⟨-, rfl⟩ := push_eq_ok_iff.1 hpush
    have hnext : (earlier.draft (earlier.cellsOf element)).Drafts
        (cells ++ more ++ earlier.cellsOf element) := hdrafts.draft
    rw [List.append_assoc] at hnext
    exact ⟨more ++ earlier.cellsOf element, hnext.code, hnext.fixups⟩
  · intro _ earlier h
    obtain ⟨more, hdrafts⟩ := h
    exact ⟨more, hdrafts.code, hdrafts.fixups⟩
  · intro _ earlier kind h
    obtain ⟨more, hdrafts⟩ := h
    refine ⟨more, ?_⟩
    unfold allocate
    split
    · exact hdrafts
    · exact ⟨hdrafts.code, hdrafts.fixups⟩

/-- What was written before the rest of a run stays in the body. -/
theorem Drafts.isKeptBy {cells : List Cell} {operations : List Operation}
    (h : direct.Drafts cells)
    (hno : NoPushFails (performAll perform direct operations).1)
    (hf : (performAll perform direct operations).2.finish = .ok body) :
    direct.IsKeptBy body := by
  obtain ⟨more, hlast⟩ := h.run hno
  have hcode :=
    ((foldlM_applyFixup_iff hlast).1 (finish_eq_ok_iff.1 hf).2.1).2
  intro position byte hbyte hfixups
  rw [← Array.getElem?_toList, h.code] at hbyte
  have hopen : ∀ fixup ∈ fixupsFrom 0 cells, ¬ fixup.Covers (0 + position) := by
    intro fixup hfixup
    rw [← h.fixups, Array.mem_toList_iff] at hfixup
    rw [Nat.zero_add]
    exact hfixups fixup hfixup
  have hfilled := getElem?_filled
    (performAll perform direct operations).2.labels hopen
  rw [← Array.getElem?_toList, hcode, List.flatMap_append]
  rw [hbyte] at hfilled
  rw [List.getElem?_append_left (List.getElem?_eq_some_iff.1 hfilled).1, hfilled]

end Body

/-- **The direct terminal is a two-pass assembler.**  If no push of a run fails
and finishing gives a body, then the body is what a two-pass assembler makes of
the elements, and what was written at any moment of the run stays in it. -/
theorem completes_isTwoPassAssembly {initial : Slot}
    {operations : List Operation} {outcomes : List Outcome} {body : MethodBody}
    (h : Completes initial operations outcomes body) :
    IsTwoPassAssembly (pushedElements operations) body ∧
      ∀ before after, operations = before ++ after →
        (performAll perform (withInitialLocals initial) before).2.IsKeptBy
          body := by
  obtain ⟨rfl, hno, hf⟩ := h
  have hencodes := (Encodes.start initial).run hno
  refine ⟨hencodes.isTwoPassAssembly hf, ?_⟩
  intro before after hsplit
  obtain rfl := hsplit
  rw [performAll_append] at hno hf
  obtain ⟨hbefore, hafter⟩ := noPushFails_append.1 hno
  have hempty : (withInitialLocals initial).Drafts [] := ⟨rfl, rfl⟩
  obtain ⟨cells, hdrafts⟩ := hempty.run hbefore
  exact hdrafts.isKeptBy hafter hf

/-- A loop with a switch: branches back and ahead, a line, a range of code with
a handler, and a slot that is asked for in between. -/
def loopRun : List Operation :=
  [.freshLabel, .freshLabel, .push (.label ⟨0⟩), .push (.line 7),
    .push (.load .int 0), .push (.branch (.test (.zero .eq) ⟨1⟩)),
    .allocate .long, .push (.branch (.tableSwitch ⟨0⟩ 5 [⟨1⟩, ⟨0⟩])),
    .push (.label ⟨1⟩), .push (.handler ⟨⟨0⟩, ⟨1⟩, ⟨1⟩, none⟩),
    .push (.branch (.goto ⟨0⟩))]

/-- What a terminal with one slot taken answers to `loopRun`. -/
def loopOutcomes : List Outcome :=
  [.label ⟨0⟩, .label ⟨1⟩, .pushed (.ok ()), .pushed (.ok ()),
    .pushed (.ok ()), .pushed (.ok ()), .slot (.ok 1), .pushed (.ok ()),
    .pushed (.ok ()), .pushed (.ok ()), .pushed (.ok ())]

/-- The body of `loopRun`. -/
def loopBody : MethodBody where
  code := #[26, 153, 0, 27, 170, 0, 0, 0, 255, 255, 255, 252, 0, 0, 0, 5, 0, 0,
    0, 6, 0, 0, 0, 24, 255, 255, 255, 252, 167, 255, 228]
  maxLocals := 3
  labelOffsets := #[some 0, some 28]
  handlers := #[⟨0, 28, 28, none⟩]
  lines := #[⟨0, 7⟩]
  localVariables := #[]
  localVariableTypes := #[]

theorem completes_loopRun :
    Completes 1 loopRun loopOutcomes loopBody := by
  refine ⟨?_, ?_, ?_⟩
  · cbv
  · simp [NoPushFails, loopOutcomes]
  · cbv

theorem loopRun_isTwoPassAssembly :
    Completes 1 loopRun loopOutcomes loopBody ∧
      IsTwoPassAssembly (pushedElements loopRun) loopBody :=
  ⟨completes_loopRun, (completes_isTwoPassAssembly completes_loopRun).1⟩

end Direct

end JvmMethod
