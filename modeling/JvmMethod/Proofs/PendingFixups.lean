import JvmMethod.Proofs.EncodedTargets
import JvmMethod.Proofs.TwoPassAssembly

/-!
# Operands that wait for their labels

An instruction is written piece by piece, and the operand of a label that has no place
yet is zeros and a fixup.  A branch that is refused for its offset stops halfway, and
the producer may go on after that.  Nothing of this is ever taken back: code and fixups
only grow at their ends.  So whatever was done, a fixup is about zeros that are all in
the code, behind the opcode of a branch, and apart from those of any other fixup; and
finishing, which overwrites them, finds them where they were written.

* `Direct.push_cases`: what a push may write.
* `Direct.WritesOn.push`, `Direct.HoldsFixups.push`: one push more, refused or not.
* `Direct.HoldsFixups.finishesInPlace`: what finishing overwrites.
* `Direct.fixups_patchable`: all of it in every state that can be reached.
-/

namespace JvmMethod

/-- The label whose offset a piece holds, and whether that has four bytes. -/
def Piece.hole? : Piece → Option (Label × Bool)
  | .byte _ => none
  | .near target => some (target, false)
  | .far target => some (target, true)

namespace Branch

variable {ℓ : Type}

/-- The opcode of a branch. -/
def opcode : Branch ℓ → UInt8
  | .test condition _ => condition.opcode
  | .goto _ => 0xa7
  | .tableSwitch .. => 0xaa
  | .lookupSwitch .. => 0xab

/-- Is the branch a switch, which has offsets of four bytes? -/
def isSwitch : Branch ℓ → Bool
  | .test .. | .goto .. => false
  | .tableSwitch .. | .lookupSwitch .. => true

/-- A branch is its opcode and what comes behind, where every hole is for one of its
targets, and as wide as all of them. -/
theorem pieces_eq {branch : Branch Label} {start : Nat} {pieces : List Piece}
    (h : branch.pieces start = .ok pieces) :
    ∃ operands, pieces = .byte branch.opcode :: operands ∧
      ∀ piece ∈ operands, ∀ target isFar, piece.hole? = some (target, isFar) →
        target ∈ branch.targets ∧ isFar = branch.isSwitch := by
  have htargets {piece : Piece} (hmem : piece ∈ pieces) {target : Label}
      (htarget : piece.target? = some target) : target ∈ branch.targets :=
    branch.mem_targets_of_mem_pieces h hmem htarget
  have hnear {target : Label} (hmem : .near target ∈ pieces) :
      false = branch.isSwitch := by
    have helement : Element.pieces start (.branch branch) = .ok pieces := h
    have hplace := (near_mem_pieces_iff helement).1 hmem
    cases branch with
    | test _ _ | goto _ => rfl
    | tableSwitch _ _ _ | lookupSwitch _ _ => cases hplace
  have hfar {target : Label} (hmem : .far target ∈ pieces) :
      true = branch.isSwitch := by
    cases branch with
    | test _ _ | goto _ =>
      cases h
      simp at hmem
    | tableSwitch _ _ _ | lookupSwitch _ _ => rfl
  have hopcode : ∃ operands, pieces = .byte branch.opcode :: operands := by
    cases branch with
    | tableSwitch default low targets =>
      simp only [Branch.pieces] at h
      split at h
      · cases h
      · cases h
        exact ⟨_, rfl⟩
    | _ =>
      cases h
      exact ⟨_, rfl⟩
  obtain ⟨operands, rfl⟩ := hopcode
  refine ⟨operands, rfl, ?_⟩
  intro piece hmem target isFar hhole
  have hpiece := List.mem_cons_of_mem (.byte branch.opcode) hmem
  cases piece with
  | byte _ => cases hhole
  | near _ =>
    cases hhole
    exact ⟨htargets hpiece rfl, hnear hpiece⟩
  | far _ =>
    cases hhole
    exact ⟨htargets hpiece rfl, hfar hpiece⟩

end Branch

namespace Fixup

/-- The end of the operand. -/
def stop (fixup : Fixup) : Nat :=
  fixup.operand + if fixup.isFar then 4 else 2

/-- The operand is zeros in the code, behind the opcode of a branch to the label, which
is a switch exactly if the operand has four bytes. -/
structure PendsIn (code : Array UInt8) (fixup : Fixup) : Prop where
  behind_opcode : fixup.start < fixup.operand
  stop_le_size : fixup.stop ≤ code.size
  zeros : ∀ position, fixup.Covers position → code[position]? = some 0
  branch : ∃ branch : Branch Label, code[fixup.start]? = some branch.opcode ∧
    fixup.label ∈ branch.targets ∧ fixup.isFar = branch.isSwitch

end Fixup

/-- A byte stays where it is when more is written behind it. -/
theorem getElem?_of_prefix {code later : Array UInt8} {position : Nat} {byte : UInt8}
    (h : code.toList <+: later.toList) (hbyte : code[position]? = some byte) :
    later[position]? = some byte := by
  rw [← Array.getElem?_toList] at hbyte ⊢
  obtain ⟨behind, hlater⟩ := h
  rw [← hlater, List.getElem?_append_left (List.getElem?_eq_some_iff.1 hbyte).1, hbyte]

theorem Fixup.PendsIn.mono {code later : Array UInt8} {fixup : Fixup}
    (h : fixup.PendsIn code) (hlater : code.toList <+: later.toList) :
    fixup.PendsIn later where
  behind_opcode := h.behind_opcode
  stop_le_size := Nat.le_trans h.stop_le_size hlater.length_le
  zeros position hcovers := getElem?_of_prefix hlater (h.zeros position hcovers)
  branch := by
    obtain ⟨branch, hopcode, hbranch⟩ := h.branch
    exact ⟨branch, getElem?_of_prefix hlater hopcode, hbranch⟩

namespace Direct

variable {direct next : Direct}

/-- More is written behind the code, and more fixups are noted behind those that there
are. -/
structure WritesOn (direct next : Direct) : Prop where
  code : direct.code.toList <+: next.code.toList
  fixups : direct.fixups.toList <+: next.fixups.toList

/-- Every fixup waits in the code, one behind the other. -/
structure HoldsFixups (direct : Direct) : Prop where
  pending : ∀ fixup ∈ direct.fixups.toList, fixup.PendsIn direct.code
  apart : direct.fixups.toList.Pairwise fun fixup later => fixup.stop ≤ later.operand

/-- If the piece is a hole, then it is one of a branch that starts there. -/
def Expects (direct : Direct) (start : Nat) (piece : Piece) : Prop :=
  ∀ target isFar, piece.hole? = some (target, isFar) →
    ∃ branch : Branch Label, direct.code[start]? = some branch.opcode ∧
      target ∈ branch.targets ∧ isFar = branch.isSwitch

/-- **What a push may write**: the pieces of the element, up to the first that fails, or
nothing. -/
theorem push_cases (direct : Direct) (element : Element) :
    (∃ pieces, element.pieces direct.code.size = .ok pieces ∧
      direct.push element =
        (direct.noteLocals element).writePieces direct.code.size pieces) ∨
    ((direct.push element).2.code = direct.code ∧
      (direct.push element).2.fixups = direct.fixups) := by
  by_cases hvoid : touchesVoid element = false
  · cases hpseudo : element.isPseudo with
    | false =>
      rw [push_instruction hpseudo hvoid]
      cases hpieces : element.pieces direct.code.size with
      | ok pieces => exact .inl ⟨pieces, rfl, rfl⟩
      | error fault => exact .inr (by simp [noteLocals_eq])
    | true =>
      right
      cases element with
      | label label =>
        simp only [push, hvoid, Bool.false_eq_true, if_false]
        split <;> simp [noteLocals_eq]
      | line _ | handler _ | localVariable _ | localVariableType _ =>
        simp [push, hvoid, noteLocals_eq]
      | _ => cases hpseudo
  · right
    simp [push, hvoid]

namespace WritesOn

theorem refl (direct : Direct) : direct.WritesOn direct :=
  ⟨List.prefix_rfl, List.prefix_rfl⟩

theorem trans {last : Direct} (h : direct.WritesOn next) (hrest : next.WritesOn last) :
    direct.WritesOn last :=
  ⟨h.code.trans hrest.code, h.fixups.trans hrest.fixups⟩

theorem of_eq (hcode : next.code = direct.code) (hfixups : next.fixups = direct.fixups) :
    direct.WritesOn next := by
  constructor
  · rw [hcode]
  · rw [hfixups]

theorem noteLocals (direct : Direct) (element : Element) :
    direct.WritesOn (direct.noteLocals element) :=
  of_eq (by rw [noteLocals_eq]) (by rw [noteLocals_eq])

theorem writeBytes (direct : Direct) (bytes : List UInt8) :
    direct.WritesOn (direct.writeBytes bytes) := by
  refine ⟨⟨bytes, ?_⟩, List.prefix_rfl⟩
  simp [Direct.writeBytes]

theorem writeFixup (direct : Direct) (start : Nat) (label : Label) (isFar : Bool) :
    direct.WritesOn (direct.writeFixup start label isFar) :=
  ⟨by simp [Direct.writeFixup], by simp [Direct.writeFixup]⟩

/-- A piece is written behind the code, unless it does not fit. -/
theorem writePiece (direct : Direct) (start : Nat) (piece : Piece) :
    direct.WritesOn (direct.writePiece start piece).2 := by
  cases piece with
  | byte value => exact writeBytes direct [value]
  | near label =>
    simp only [Direct.writePiece]
    split
    · exact writeFixup direct start label false
    · split
      · exact writeBytes direct _
      · exact refl direct
  | far label =>
    simp only [Direct.writePiece]
    split
    · exact writeFixup direct start label true
    · exact writeBytes direct _

theorem writePieces (direct : Direct) (start : Nat) (pieces : List Piece) :
    direct.WritesOn (direct.writePieces start pieces).2 := by
  induction pieces generalizing direct with
  | nil => exact refl direct
  | cons piece pieces ih =>
    have hfirst := writePiece direct start piece
    simp only [Direct.writePieces]
    split
    · next hwrite => rwa [hwrite] at hfirst
    · next hwrite =>
      rw [hwrite] at hfirst
      exact hfirst.trans (ih _)

/-- **A push changes nothing that was written before.** -/
theorem push (direct : Direct) (element : Element) :
    direct.WritesOn (direct.push element).2 := by
  rcases direct.push_cases element with ⟨pieces, -, hpush⟩ | ⟨hcode, hfixups⟩
  · rw [hpush]
    exact (noteLocals direct element).trans (writePieces _ _ pieces)
  · exact of_eq hcode hfixups

theorem perform (direct : Direct) (operation : Operation) :
    direct.WritesOn (direct.perform operation).2 := by
  cases operation with
  | push element => exact push direct element
  | freshLabel => exact of_eq rfl rfl
  | allocate kind =>
    simp only [Direct.perform, allocate]
    split <;> exact of_eq rfl rfl

theorem performAll (direct : Direct) (operations : List Operation) :
    direct.WritesOn (performAll Direct.perform direct operations).2 := by
  induction operations generalizing direct with
  | nil => exact refl direct
  | cons operation operations ih => exact (perform direct operation).trans (ih _)

end WritesOn

theorem Expects.mono {start : Nat} {piece : Piece} (h : direct.Expects start piece)
    (hnext : direct.WritesOn next) : next.Expects start piece := by
  intro target isFar hhole
  obtain ⟨branch, hopcode, hbranch⟩ := h target isFar hhole
  exact ⟨branch, getElem?_of_prefix hnext.code hopcode, hbranch⟩

namespace HoldsFixups

/-- Code behind the code is no harm to the fixups. -/
theorem of_fixups_eq (h : direct.HoldsFixups) (hnext : direct.WritesOn next)
    (hfixups : next.fixups = direct.fixups) : next.HoldsFixups where
  pending fixup hmem := by
    rw [hfixups] at hmem
    exact (h.pending fixup hmem).mono hnext.code
  apart := by
    rw [hfixups]
    exact h.apart

/-- One fixup more, in the instruction of a branch. -/
theorem writeFixup (h : direct.HoldsFixups) {start : Nat} {label : Label} {isFar : Bool}
    {branch : Branch Label} (hopcode : direct.code[start]? = some branch.opcode)
    (htarget : label ∈ branch.targets) (hwidth : isFar = branch.isSwitch) :
    (direct.writeFixup start label isFar).HoldsFixups := by
  have hon := WritesOn.writeFixup direct start label isFar
  have hfixups : (direct.writeFixup start label isFar).fixups.toList =
      direct.fixups.toList ++ [{ label, start, operand := direct.code.size, isFar }] := by
    simp [Direct.writeFixup]
  have hstart : start < direct.code.size :=
    (Array.getElem?_eq_some_iff.1 hopcode).1
  constructor
  case pending =>
    intro fixup hmem
    rw [hfixups] at hmem
    rcases List.mem_append.1 hmem with hearlier | hnew
    · exact (h.pending fixup hearlier).mono hon.code
    · cases List.mem_singleton.1 hnew
      constructor
      case behind_opcode => exact hstart
      case stop_le_size => simp [Fixup.stop, Direct.writeFixup]
      case zeros =>
        rintro position ⟨hfrom, hupto⟩
        simp only [Direct.writeFixup] at hfrom hupto ⊢
        rw [Array.getElem?_append_right hfrom, Array.getElem?_replicate,
          if_pos (by omega)]
      case branch => exact ⟨branch, getElem?_of_prefix hon.code hopcode, htarget, hwidth⟩
  case apart =>
    rw [hfixups]
    refine List.pairwise_append.2 ⟨h.apart, List.pairwise_singleton .., ?_⟩
    intro fixup hearlier later hnew
    cases List.mem_singleton.1 hnew
    exact (h.pending fixup hearlier).stop_le_size

/-- One piece more, whether or not it fits. -/
theorem writePiece (h : direct.HoldsFixups) {start : Nat} {piece : Piece}
    (hexpects : direct.Expects start piece) :
    (direct.writePiece start piece).2.HoldsFixups := by
  have hbytes (bytes : List UInt8) : (direct.writeBytes bytes).HoldsFixups :=
    h.of_fixups_eq (WritesOn.writeBytes direct bytes) rfl
  cases piece with
  | byte value => exact hbytes [value]
  | near label =>
    obtain ⟨branch, hopcode, htarget, hwidth⟩ := hexpects label false rfl
    simp only [Direct.writePiece]
    split
    · exact h.writeFixup hopcode htarget hwidth
    · split
      · exact hbytes _
      · exact h
  | far label =>
    obtain ⟨branch, hopcode, htarget, hwidth⟩ := hexpects label true rfl
    simp only [Direct.writePiece]
    split
    · exact h.writeFixup hopcode htarget hwidth
    · exact hbytes _

/-- The pieces of an instruction, up to the first that fails. -/
theorem writePieces (h : direct.HoldsFixups) {start : Nat} {pieces : List Piece}
    (hexpects : ∀ piece ∈ pieces, direct.Expects start piece) :
    (direct.writePieces start pieces).2.HoldsFixups := by
  induction pieces generalizing direct with
  | nil => exact h
  | cons piece pieces ih =>
    have hon := WritesOn.writePiece direct start piece
    have hfirst := h.writePiece (hexpects piece List.mem_cons_self)
    simp only [Direct.writePieces]
    split
    · next hwrite => rwa [hwrite] at hfirst
    · next hwrite =>
      rw [hwrite] at hon hfirst
      refine ih hfirst fun other hmem => ?_
      exact (hexpects other (List.mem_cons_of_mem _ hmem)).mono hon

/-- **A push keeps the fixups apart**, also one that is refused halfway. -/
theorem push (h : direct.HoldsFixups) (element : Element) :
    (direct.push element).2.HoldsFixups := by
  rcases direct.push_cases element with ⟨pieces, hpieces, hpush⟩ | ⟨hcode, hfixups⟩
  · have hnoted : (direct.noteLocals element).HoldsFixups :=
      h.of_fixups_eq (WritesOn.noteLocals direct element) (by rw [noteLocals_eq])
    rw [hpush]
    by_cases hbranch : ∃ branch, element = .branch branch
    · obtain ⟨branch, rfl⟩ := hbranch
      obtain ⟨operands, rfl, hholes⟩ := Branch.pieces_eq hpieces
      -- the holes are those of the branch as soon as its opcode is written
      have hopened := WritesOn.writeBytes (direct.noteLocals (.branch branch))
        [branch.opcode]
      refine writePieces (hnoted.of_fixups_eq hopened rfl) ?_
      intro piece hmem target isFar hhole
      refine ⟨branch, ?_, hholes piece hmem target isFar hhole⟩
      simp [Direct.writeBytes, noteLocals_eq]
    · refine hnoted.writePieces fun piece hmem target isFar hhole => ?_
      have hnone : piece.target? = none := target?_of_mem_pieces hpieces
        (fun branch hsame => hbranch ⟨branch, hsame⟩) hmem
      cases piece with
      | byte _ => cases hhole
      | near _ | far _ => cases hnone
  · exact h.of_fixups_eq (.of_eq hcode hfixups) hfixups

theorem perform (h : direct.HoldsFixups) (operation : Operation) :
    (direct.perform operation).2.HoldsFixups := by
  cases operation with
  | push element => exact h.push element
  | freshLabel => exact h.of_fixups_eq (.of_eq rfl rfl) rfl
  | allocate kind =>
    simp only [Direct.perform, allocate]
    split <;> exact h.of_fixups_eq (.of_eq rfl rfl) rfl

theorem of_no_fixups (h : direct.fixups = #[]) : direct.HoldsFixups where
  pending fixup hmem := by simp [h] at hmem
  apart := by simp [h]

end HoldsFixups

/-- Filling in the fixups of the body overwrites their operands, and no other byte. -/
structure FinishesInPlace (direct : Direct) : Prop where
  /-- Whichever fixup is next, its operand is in the code that there is by then. -/
  in_range : ∀ before fixup after code,
    direct.fixups.toList = before ++ fixup :: after →
    before.foldlM (applyFixup direct.labels) direct.code = .ok code →
    fixup.stop ≤ code.size
  /-- Up to any fixup, the code is as long as it was, and the same but for the operands
  that were filled in. -/
  elsewhere : ∀ before after code, direct.fixups.toList = before ++ after →
    before.foldlM (applyFixup direct.labels) direct.code = .ok code →
    code.size = direct.code.size ∧
      ∀ position, (∀ fixup ∈ before, ¬ fixup.Covers position) →
        code[position]? = direct.code[position]?
  finished : ∀ body, direct.finish = .ok body →
    body.code.size = direct.code.size ∧
      ∀ position, (∀ fixup ∈ direct.fixups.toList, ¬ fixup.Covers position) →
        body.code[position]? = direct.code[position]?

section Filling

variable {labels : LabelTable} {code result : Array UInt8}

theorem size_patch (code : Array UInt8) (position : Nat) (bytes : List UInt8) :
    (patch code position bytes).size = code.size := by
  induction bytes generalizing code position with
  | nil => rfl
  | cons byte bytes ih => rw [patch, ih, Array.size_setIfInBounds]

/-- Patching leaves the bytes before and behind alone. -/
theorem getElem?_patch {position index : Nat} {bytes : List UInt8}
    (h : index < position ∨ position + bytes.length ≤ index) :
    (patch code position bytes)[index]? = code[index]? := by
  induction bytes generalizing code position with
  | nil => rfl
  | cons byte bytes ih =>
    rw [List.length_cons] at h
    rw [patch, ih (by omega), Array.getElem?_setIfInBounds_ne (by omega)]

/-- Filling in an offset changes its operand only. -/
theorem getElem?_applyFixup {fixup : Fixup}
    (h : applyFixup labels code fixup = .ok result) :
    result.size = code.size ∧
      ∀ position, ¬ fixup.Covers position → result[position]? = code[position]? := by
  have hpatch (bytes : List UInt8)
      (hlength : bytes.length = if fixup.isFar then 4 else 2)
      (hresult : result = patch code fixup.operand bytes) :
      result.size = code.size ∧
        ∀ position, ¬ fixup.Covers position → result[position]? = code[position]? := by
    refine ⟨by rw [hresult, size_patch], fun position hoff => ?_⟩
    rw [hresult, getElem?_patch]
    simp only [Fixup.Covers] at hoff
    omega
  cases hplace : labels.position? fixup.label with
  | none => simp [applyFixup, hplace] at h
  | some target =>
    cases hfar : fixup.isFar with
    | true =>
      simp only [applyFixup, hplace, hfar, if_true, Except.ok.injEq] at h
      exact hpatch _ (by rw [hfar]; rfl) h.symm
    | false =>
      by_cases hfits : fitsInt16 ((target : Int) - fixup.start) = true
      · simp only [applyFixup, hplace, hfar, hfits, Bool.false_eq_true, if_false,
          if_true, Except.ok.injEq] at h
        exact hpatch _ (by rw [hfar]; rfl) h.symm
      · simp [applyFixup, hplace, hfar, hfits] at h

/-- Filling in offsets changes their operands only. -/
theorem getElem?_foldlM_applyFixup {fixups : List Fixup}
    (h : fixups.foldlM (applyFixup labels) code = .ok result) :
    result.size = code.size ∧
      ∀ position, (∀ fixup ∈ fixups, ¬ fixup.Covers position) →
        result[position]? = code[position]? := by
  induction fixups generalizing code with
  | nil =>
    cases h
    exact ⟨rfl, fun _ _ => rfl⟩
  | cons fixup fixups ih =>
    rw [List.foldlM_cons, bind_eq_ok] at h
    obtain ⟨middle, hfirst, hrest⟩ := h
    obtain ⟨hsize, hsame⟩ := getElem?_applyFixup hfirst
    obtain ⟨hsizes, hothers⟩ := ih hrest
    refine ⟨hsizes.trans hsize, fun position hoff => ?_⟩
    obtain ⟨hhere, hthere⟩ := List.forall_mem_cons.1 hoff
    exact (hothers position hthere).trans (hsame position hhere)

end Filling

/-- **Finishing overwrites the operands that wait, and no other byte.** -/
theorem HoldsFixups.finishesInPlace (h : direct.HoldsFixups) :
    direct.FinishesInPlace where
  in_range before fixup after code hfixups hcode := by
    rw [(getElem?_foldlM_applyFixup hcode).1]
    refine (h.pending fixup ?_).stop_le_size
    rw [hfixups]
    exact List.mem_append_right _ List.mem_cons_self
  elsewhere before after code _ hcode := getElem?_foldlM_applyFixup hcode
  finished body hfinish := by
    obtain ⟨-, hcode, -⟩ := finish_eq_ok_iff.1 hfinish
    rw [← Array.foldlM_toList] at hcode
    exact getElem?_foldlM_applyFixup hcode

/-- A state that a direct terminal may get into. -/
inductive Reachable : Direct → Prop
  | new (initial : Slot) : Reachable (withInitialLocals initial)
  /-- The terminal goes on where a buffered one has stopped. -/
  | resumed (buffered : Buffered) : Reachable buffered.resume
  /-- The answer to the operation may be a fault. -/
  | step {direct : Direct} (before : Reachable direct) (operation : Operation) :
      Reachable (direct.perform operation).2

namespace Reachable

theorem performAll (h : direct.Reachable) (operations : List Operation) :
    (performAll Direct.perform direct operations).2.Reachable := by
  induction operations generalizing direct with
  | nil => exact h
  | cons operation operations ih => exact ih (h.step operation)

theorem holdsFixups (h : direct.Reachable) : direct.HoldsFixups := by
  induction h with
  | new initial => exact .of_no_fixups rfl
  | resumed buffered => exact .of_no_fixups rfl
  | step before operation ih => exact ih.perform operation

end Reachable

/-- **Fixups can be patched in every state.**  Whatever was done with a direct
terminal, refused pushes included, every fixup is about zeros in the code, behind the
opcode of its branch, and no two of them are about the same byte.  Whatever is done
next, the code that is there stays, and the fixups too.  Finishing finds the operands
in the code, and overwrites nothing else. -/
theorem fixups_patchable (h : direct.Reachable) :
    direct.HoldsFixups ∧
      (∀ operations, direct.WritesOn (performAll Direct.perform direct operations).2) ∧
      direct.FinishesInPlace := by
  have hfixups := h.holdsFixups
  exact ⟨hfixups, WritesOn.performAll direct, hfixups.finishesInPlace⟩

/-- Branches ahead to labels that have no place yet, one of two bytes and three of
four, between pushes that are refused. -/
def waitingRun : List Operation :=
  [.push (.label ⟨0⟩), .push (.branch (.test (.zero .eq) ⟨1⟩)),
    .push (.label ⟨0⟩), .push (.store .void 3),
    .push (.branch (.tableSwitch ⟨2⟩ 2147483647 [⟨0⟩, ⟨0⟩])),
    .push (.branch (.tableSwitch ⟨2⟩ 5 [⟨0⟩, ⟨1⟩, ⟨3⟩]))]

/-- The fixups of `waitingRun`. -/
def waitingFixups : Array Fixup :=
  #[⟨⟨1⟩, 0, 1, false⟩, ⟨⟨2⟩, 3, 4, true⟩, ⟨⟨1⟩, 3, 20, true⟩, ⟨⟨3⟩, 3, 24, true⟩]

theorem waitingRun_patchable :
    let direct := (performAll perform (withInitialLocals 0) waitingRun).2
    direct.Reachable ∧ direct.fixups = waitingFixups ∧ direct.code.size = 28 ∧
      direct.HoldsFixups ∧
      (∀ operations, direct.WritesOn (performAll perform direct operations).2) ∧
      direct.FinishesInPlace := by
  intro direct
  have hreachable : direct.Reachable := (Reachable.new 0).performAll waitingRun
  exact ⟨hreachable, by decide +kernel, by decide +kernel, fixups_patchable hreachable⟩

end Direct

end JvmMethod
