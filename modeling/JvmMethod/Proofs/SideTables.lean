import JvmMethod.Proofs.RunRefusals
import JvmMethod.Proofs.StrayLabels
import JvmMethod.Proofs.TwoPassAssembly

/-!
# The tables of a finished body

Beside its code, a body has tables: where its labels are, which exceptions are
handled where, which source lines the code comes from, and where the local
variables live.  While elements arrive, the positions of all these are labels, or
offsets that are cut to a word although the code may still become too long for
that.  Finishing resolves the labels, and fails if the code is too long, so that
in the end nothing was cut.

* `HasExactTables`: there is one entry for every element that asks for one, in
  their order, with true offsets, all of them in the code or at its end.
* `Chain.finish_hasExactTables`: what is finished has exact tables, whatever was
  done before.
-/

namespace JvmMethod

/-- The offset of the first instruction of elements that are laid out from `start`
on, or their end if there is no instruction. -/
def firstInstruction (start : Nat) (elements : List Element) : Nat :=
  match (layout start elements).find? fun (_, element) => !element.isPseudo with
  | some (offset, _) => offset
  | none => endOffset start elements

/-- All positions in the tables of a body are in its code or at its end. -/
structure MethodBody.InRange (body : MethodBody) : Prop where
  labels : ∀ label offset, body.labelOffset? label = some offset →
    offset.toNat ≤ body.code.size
  handlers : ∀ entry ∈ body.handlers.toList,
    entry.start.toNat ≤ body.code.size ∧ entry.stop.toNat ≤ body.code.size ∧
      entry.handler.toNat ≤ body.code.size
  lines : ∀ entry ∈ body.lines.toList, entry.start.toNat ≤ body.code.size
  localVariables : ∀ entry ∈ body.localVariables.toList,
    entry.start.toNat + entry.length.toNat ≤ body.code.size
  localVariableTypes : ∀ entry ∈ body.localVariableTypes.toList,
    entry.start.toNat + entry.length.toNat ≤ body.code.size

/-- The tables of the body have the entries that the elements ask for: those that
a two-pass assembler makes, of which every line starts at the next instruction. -/
structure HasExactTables (elements : List Element) (body : MethodBody) : Prop
    extends IsTwoPassAssembly elements body where
  line_count : body.lines.size = (elements.filterMap ElementOf.line?).length
  /-- The entry of a line comes behind those of the lines before, and starts at the
  next instruction, or at the end of the code. -/
  line_starts : ∀ before number after, elements = before ++ .line number :: after →
    ∃ entry, body.lines[(before.filterMap ElementOf.line?).length]? = some entry ∧
      entry.line = number ∧
      entry.start.toNat = firstInstruction (endOffset 0 before) after
  lines_sorted : body.lines.toList.Pairwise fun entry later =>
    entry.start ≤ later.start
  in_range : body.InRange

section Lines

variable (start : Nat) (elements : List Element)

/-- Pseudo-elements take no room, so that an instruction that only they are in
front of is at the start. -/
theorem firstInstruction_eq : firstInstruction start elements = start := by
  induction elements generalizing start with
  | nil => rfl
  | cons element elements ih =>
    cases hpseudo : element.isPseudo with
    | false => simp [firstInstruction, layout, hpseudo]
    | true =>
      have hsize : element.size start = 0 := by
        cases element <;> first | rfl | cases hpseudo
      have hrest := ih start
      simpa [firstInstruction, layout, endOffset, hpseudo, hsize] using hrest

/-- The lines that the elements give, each with the offset where it is given. -/
def placedLines : List (Nat × UInt16) :=
  (layout start elements).filterMap fun (offset, element) =>
    element.line?.map (offset, ·)

theorem placedLines_append (more : List Element) :
    placedLines start (elements ++ more) =
      placedLines start elements ++ placedLines (endOffset start elements) more := by
  simp only [placedLines, layout_append, List.filterMap_append]

theorem placedLines_line (number : UInt16) :
    placedLines start (.line number :: elements) =
      (start, number) :: placedLines start elements :=
  rfl

theorem length_placedLines :
    (placedLines start elements).length =
      (elements.filterMap ElementOf.line?).length := by
  induction elements generalizing start with
  | nil => rfl
  | cons element elements ih =>
    have hrest := ih (start + element.size start)
    unfold placedLines at hrest ⊢
    cases hline : element.line? <;>
      simp [layout, hline, hrest]

/-- No element of a layout is in front of its start. -/
theorem le_of_mem_layout {start offset : Nat} {elements : List Element}
    {element : Element} (h : (offset, element) ∈ layout start elements) :
    start ≤ offset := by
  obtain ⟨before, -, -, rfl⟩ := exists_append_of_mem_layout h
  exact le_endOffset start before

/-- No line is given behind the last element. -/
theorem le_of_mem_placedLines {start offset : Nat} {elements : List Element}
    {line : UInt16} (h : (offset, line) ∈ placedLines start elements) :
    offset ≤ endOffset start elements := by
  obtain ⟨⟨place, element⟩, hmem, hplace⟩ := List.mem_filterMap.1 h
  obtain ⟨number, -, hsame⟩ := Option.map_eq_some_iff.1 hplace
  cases hsame
  exact Nat.le_trans (Nat.le_add_right _ _) (offset_add_size_le hmem)

/-- Elements are laid out one behind the other. -/
theorem layout_sorted :
    (layout start elements).Pairwise fun entry later => entry.1 ≤ later.1 := by
  induction elements generalizing start with
  | nil => exact .nil
  | cons element elements ih =>
    refine List.pairwise_cons.2 ⟨?_, ih _⟩
    intro later hmem
    exact Nat.le_trans (Nat.le_add_right start _) (le_of_mem_layout hmem)

theorem placedLines_sorted :
    (placedLines start elements).Pairwise fun entry later => entry.1 ≤ later.1 := by
  refine List.pairwise_filterMap.2 ((layout_sorted start elements).imp ?_)
  intro entry later hle line hline other hother
  obtain ⟨_, -, rfl⟩ := Option.map_eq_some_iff.1 hline
  obtain ⟨_, -, rfl⟩ := Option.map_eq_some_iff.1 hother
  exact hle

end Lines

namespace IsTwoPassAssembly

variable {elements : List Element} {body : MethodBody}
  (h : IsTwoPassAssembly elements body)
include h

/-- No label is behind the code. -/
theorem offset_le_size {label : Label} {offset : Nat}
    (hoffset : JvmMethod.labelOffset? elements label = some offset) :
    offset ≤ body.code.size := by
  rw [h.code_size]
  exact labelOffset?_le hoffset

theorem lines_eq :
    (body.lines.toList.map fun entry => (entry.start.toNat, entry.line)) =
      placedLines 0 elements :=
  h.lines

theorem line_count : body.lines.size = (elements.filterMap ElementOf.line?).length := by
  have hlength := congrArg List.length h.lines_eq
  rw [List.length_map, Array.length_toList, length_placedLines] at hlength
  exact hlength

theorem lines_sorted :
    body.lines.toList.Pairwise fun entry later => entry.start ≤ later.start := by
  have hsorted := placedLines_sorted 0 elements
  rw [← h.lines_eq, List.pairwise_map] at hsorted
  exact hsorted.imp fun hle => UInt16.le_iff_toNat_le.2 hle

theorem line_starts {before after : List Element} {number : UInt16}
    (hsplit : elements = before ++ .line number :: after) :
    ∃ entry, body.lines[(before.filterMap ElementOf.line?).length]? = some entry ∧
      entry.line = number ∧
      entry.start.toNat = firstInstruction (endOffset 0 before) after := by
  have hlines := h.lines_eq
  rw [hsplit, placedLines_append, placedLines_line] at hlines
  have hat := congrArg (·[(placedLines 0 before).length]?) hlines
  simp only [List.getElem?_map, List.getElem?_append_right (Nat.le_refl _),
    Nat.sub_self, List.getElem?_cons_zero] at hat
  obtain ⟨entry, hentry, hplace⟩ := Option.map_eq_some_iff.1 hat
  obtain ⟨hstart, hline⟩ := Prod.mk.inj hplace
  rw [length_placedLines, Array.getElem?_toList] at hentry
  rw [firstInstruction_eq]
  exact ⟨entry, hentry, hline, hstart⟩

theorem in_range : body.InRange := by
  constructor
  case labels =>
    intro label offset hoffset
    have hplace := h.labelOffset? label
    rw [hoffset] at hplace
    exact h.offset_le_size hplace.symm
  case handlers =>
    intro entry hmem
    obtain ⟨_, hstart, hstop, hhandler, -⟩ :=
      exists_of_forall₂_of_mem h.handlers.flip hmem
    exact ⟨h.offset_le_size hstart, h.offset_le_size hstop,
      h.offset_le_size hhandler⟩
  case lines =>
    intro entry hmem
    rw [h.code_size]
    have hplaced : (entry.start.toNat, entry.line) ∈ placedLines 0 elements := by
      rw [← h.lines_eq]
      exact List.mem_map_of_mem hmem
    exact le_of_mem_placedLines hplaced
  case localVariables =>
    intro entry hmem
    obtain ⟨_, -, hstop, -⟩ := exists_of_forall₂_of_mem h.localVariables.flip hmem
    exact h.offset_le_size hstop
  case localVariableTypes =>
    intro entry hmem
    obtain ⟨_, -, hstop, -⟩ :=
      exists_of_forall₂_of_mem h.localVariableTypes.flip hmem
    exact h.offset_le_size hstop

theorem hasExactTables : HasExactTables elements body where
  toIsTwoPassAssembly := h
  line_count := h.line_count
  line_starts _ _ _ hsplit := h.line_starts hsplit
  lines_sorted := h.lines_sorted
  in_range := h.in_range

end IsTwoPassAssembly

namespace Chain

variable {ω α : Type}

/-- **The tables of a finished body are exact.**  Whatever was done with the
builders over either terminal, as long as no branch was refused for its offset (in
particular if no push was refused): if finishing gives a body, then its tables have
one entry for every element that asks for one and was accepted, and nothing in them
was cut. -/
theorem finish_hasExactTables {chain : Chain ω} (hnew : chain.bottom.IsNew)
    {script : Script ω α} {ambient : ω} {body : MethodBody}
    (hnear : NoneTooFar (chain.refusals script ambient))
    (hfinish : (chain.run script ambient).2.1.bottom.finish = .ok body) :
    HasExactTables (chain.emitted script ambient) body := by
  have htaken := chain.hasTaken_run script ambient hnew.hasTaken hnear
  rw [List.nil_append] at htaken
  obtain ⟨direct, hdirect, hbody⟩ := htaken.exists_direct hfinish
  exact (hdirect.encodes.isTwoPassAssembly hbody).hasExactTables

/-- A block over a terminal that encodes at once. -/
def blockOverNew : Chain Unit :=
  .block
    { startLabel := ⟨7⟩, stopLabel := ⟨8⟩, breakLabel := ⟨9⟩, topLocal := 1
      terminalTop := 1 }
    (.terminal (.direct (.withInitialLocals 1)))

/-- A variable for the receiver of a method, that lives between two labels. -/
def receiver (start stop : Label) : LocalVariable Label :=
  { slot := 0, name := .this, type := .ref (.object .object), start, stop }

/-- The same variable with a generic signature. -/
def receiverType (start stop : Label) : LocalVariableType Label :=
  { slot := 0, name := .this, signature := "TT;", start, stop }

/-- Code with two lines, a variable and a handler, and a label that is refused. -/
def describedCode : Build Unit Unit := do
  let start ← Build.freshLabel
  let stop ← Build.freshLabel
  Build.push (.line 7)
  Build.push (.label start)
  Build.push (.localVariable (receiver start stop))
  Build.push (.load .reference 0)
  try Build.push (.label start) catch _ => pure ()
  Build.push (.handler ⟨start, stop, stop, none⟩)
  Build.push (.line 8)
  Build.push (.label stop)
  Build.push (.athrow)
  Build.push (.localVariableType (receiverType start stop))
  Build.push (.line 9)

/-- The body of the code. -/
def describedBody : MethodBody where
  code := #[42, 191]
  maxLocals := 1
  labelOffsets := #[some 0, some 1]
  handlers := #[⟨0, 1, 1, none⟩]
  lines := #[⟨0, 7⟩, ⟨1, 8⟩, ⟨2, 9⟩]
  localVariables := #[⟨0, 1, .this, .ref (.object .object), 0⟩]
  localVariableTypes := #[⟨0, 1, .this, "TT;", 0⟩]

theorem describedBody_hasExactTables :
    blockOverNew.bottom.IsNew ∧
      NoneTooFar (blockOverNew.refusals describedCode.run ()) ∧
      (blockOverNew.run describedCode.run ()).2.1.bottom.finish = .ok describedBody ∧
      HasExactTables (blockOverNew.emitted describedCode.run ()) describedBody := by
  have hnew : blockOverNew.bottom.IsNew := ⟨1, rfl⟩
  have hrefused : blockOverNew.refusals describedCode.run () =
      [.labelAlreadyBound ⟨0⟩] := rfl
  have hnear : NoneTooFar (blockOverNew.refusals describedCode.run ()) := by
    simp [hrefused, NoneTooFar]
  have hfinish : (blockOverNew.run describedCode.run ()).2.1.bottom.finish =
      .ok describedBody := by
    decide +kernel
  exact ⟨hnew, hnear, hfinish, finish_hasExactTables hnew hnear hfinish⟩

end Chain

end JvmMethod
