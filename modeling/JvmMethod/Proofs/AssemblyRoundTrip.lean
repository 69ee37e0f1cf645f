import JvmMethod.Proofs.LabelNaming
import JvmMethod.Proofs.LineReading

/-!
# The assembler reads what is displayed

Elements are displayed one on a line, with `l0`, `l1`, … for their labels.  Each
line is read as its element again; what is left to the assembler are the labels,
which it hands out in the order in which they are mentioned.

* `meets_assembleLines`, `meets_assembleLines_error`: what lines come to, with the
  first of them that is not accepted.
* `assemble_eq_ok_iff`: when a text is accepted, and its elements.
* `assemble_displayed`: displayed elements are read back, and what was read once
  is read back without any change.
-/

namespace JvmMethod

/-- A line is accepted: it is empty or an element. -/
def IsLine (line : List Char) : Prop :=
  ∃ element? names, readLine line = (.ok element?, names)

/-- The element of a line, if it is one. -/
def lineElement? (line : List Char) : Option (ElementOf String) :=
  match readLine line with
  | (.ok element?, _) => element?
  | (.error _, _) => none

/-- The elements of lines. -/
def lineElements (lines : List (List Char)) : List (ElementOf String) :=
  lines.filterMap lineElement?

/-- How elements are displayed. -/
def displayed (elements : List Element) : String :=
  String.intercalate "\n" (elements.map Element.text)

section Lines

variable {label : String → Label} {lines rest : List (List Char)} {names : List String}

/-- Lines that are accepted give their elements, and labels for the names that these
mention, and then the other lines are read. -/
theorem meets_assembleLines_append {value : Except AssemblyFault (Array Element)}
    (number : Nat) (elements : Array Element) (h : ∀ line ∈ lines, IsLine line)
    (hrest : Meets label
      (assembleLines (number + lines.length)
        (elements ++ ((lineElements lines).map (ElementOf.map label)).toArray) rest)
      names value) :
    Meets label (assembleLines number elements (lines ++ rest))
      ((lineElements lines).flatMap ElementOf.labels ++ names) value := by
  induction lines generalizing number elements with
  | nil => simpa [lineElements] using hrest
  | cons line lines ih =>
    rw [List.forall_mem_cons] at h
    obtain ⟨⟨element?, mentioned, hline⟩, hlines⟩ := h
    have hnumber : number + (line :: lines).length = number + 1 + lines.length := by
      simp only [List.length_cons]
      omega
    rw [hnumber] at hrest
    cases element? with
    | none =>
      have hskip : lineElements (line :: lines) = lineElements lines := by
        simp [lineElements, lineElement?, hline]
      rw [hskip] at hrest ⊢
      rw [List.cons_append, assembleLines]
      simp only [hline]
      exact ih (number + 1) elements hlines hrest
    | some element =>
      have htake : lineElements (line :: lines) = element :: lineElements lines := by
        simp [lineElements, lineElement?, hline]
      have hpush (element : Element) (others : List Element) :
          elements ++ (element :: others).toArray =
            elements.push element ++ others.toArray := by
        simp
      rw [htake, List.map_cons, hpush] at hrest
      rw [htake, List.cons_append, assembleLines, List.flatMap_cons, List.append_assoc]
      simp only [hline]
      exact (meets_element element).bind (ih (number + 1) _ hlines hrest)

/-- **Lines that are accepted** give their elements, and labels for the names
that these mention. -/
theorem meets_assembleLines (number : Nat) (elements : Array Element)
    (h : ∀ line ∈ lines, IsLine line) :
    Meets label (assembleLines number elements lines)
      ((lineElements lines).flatMap ElementOf.labels)
      (.ok (elements ++ ((lineElements lines).map (ElementOf.map label)).toArray)) := by
  have hread : Meets label (assembleLines number elements (lines ++ []))
      ((lineElements lines).flatMap ElementOf.labels ++ [])
      (.ok (elements ++ ((lineElements lines).map (ElementOf.map label)).toArray)) :=
    meets_assembleLines_append number elements h (meets_pure _)
  rwa [List.append_nil, List.append_nil] at hread

/-- **The first line that is not accepted** is reported, and its names are met up to
its fault. -/
theorem meets_assembleLines_error {line : List Char} {cause : LineFault}
    {mentioned : List String} (number : Nat) (elements : Array Element)
    (h : ∀ line ∈ lines, IsLine line) (hline : readLine line = (.error cause, mentioned))
    (rest : List (List Char)) :
    Meets label (assembleLines number elements (lines ++ line :: rest))
      ((lineElements lines).flatMap ElementOf.labels ++ mentioned)
      (.error { line := number + lines.length, cause }) := by
  apply meets_assembleLines_append number elements h
  rw [assembleLines]
  simp only [hline]
  let fault : AssemblyFault := { line := number + lines.length, cause }
  exact (meets_meetNames mentioned).map fun _ => Except.error fault

/-- Lines that are not all accepted have a first that is not. -/
theorem exists_first_refused (h : ∃ line ∈ lines, ¬ IsLine line) :
    ∃ accepted line rest, lines = accepted ++ line :: rest ∧
      (∀ line ∈ accepted, IsLine line) ∧
        ∃ cause mentioned, readLine line = (.error cause, mentioned) := by
  induction lines with
  | nil =>
    obtain ⟨line, hmem, -⟩ := h
    cases hmem
  | cons line lines ih =>
    rw [List.exists_mem_cons_iff] at h
    rcases hread : readLine line with ⟨cause | element?, mentioned⟩
    · exact ⟨[], line, lines, rfl, by simp, cause, mentioned, hread⟩
    · have hline : IsLine line := ⟨element?, mentioned, hread⟩
      obtain ⟨accepted, refused, rest, rfl, haccepted, hrefused⟩ :=
        ih (h.resolve_left fun hnot => hnot hline)
      refine ⟨line :: accepted, refused, rest, rfl, ?_, hrefused⟩
      exact List.forall_mem_cons.2 ⟨hline, haccepted⟩

end Lines

/-- **A text is accepted** if all its lines are.  Then its elements are those of
its lines, with labels in the order in which their names are mentioned. -/
theorem assemble_eq_ok_iff {terminal : Terminal} {source : String}
    {elements : Array Element} :
    ((assemble source).run terminal {}).1 = .ok elements ↔
      (∀ line ∈ partsAt '\n' source.toList, IsLine line) ∧
        elements = ((lineElements (partsAt '\n' source.toList)).map
          (ElementOf.map (labelAt terminal.labels.size
            ((lineElements (partsAt '\n' source.toList)).flatMap
              ElementOf.labels)))).toArray := by
  unfold assemble
  generalize partsAt '\n' source.toList = lines
  by_cases hlines : ∀ line ∈ lines, IsLine line
  · rw [meets_assembleLines 1 #[] hlines terminal {} fun _ hmem =>
      LabelNames.find?_meet_empty _ hmem, Array.empty_append]
    constructor
    · intro h
      cases h
      exact ⟨hlines, rfl⟩
    · intro h
      exact congrArg Except.ok h.2.symm
  · have hwrong : ∃ line ∈ lines, ¬ IsLine line := by
      simpa using hlines
    obtain ⟨accepted, line, rest, rfl, haccepted, cause, mentioned, hline⟩ :=
      exists_first_refused hwrong
    rw [meets_assembleLines_error 1 #[] haccepted hline rest terminal {} fun _ hmem =>
      LabelNames.find?_meet_empty _ hmem]
    constructor
    · intro h
      cases h
    · intro h
      exact absurd h.1 hlines

section Displaying

theorem Label.text_injective : Function.Injective Label.text := by
  intro label other hsame
  have hlist (label : Label) :
      label.text.toList = 'l' :: (toString label.index).toList := by
    simp [Label.text]
  have hdigits := congrArg String.toList hsame
  rw [hlist, hlist, List.cons.injEq] at hdigits
  have hindex := congrArg unsigned? hdigits.2
  rw [unsigned?_toString, unsigned?_toString, Option.some.injEq] at hindex
  cases label
  cases other
  exact congrArg Label.mk hindex

/-- Parts that are joined by a separator are cut apart there. -/
theorem partsAt_intercalate {separator : Char} {parts : List (List Char)}
    (hnonempty : parts ≠ []) (h : ∀ part ∈ parts, separator ∉ part) :
    partsAt separator ([separator].intercalate parts) = parts := by
  induction parts with
  | nil => exact absurd rfl hnonempty
  | cons part parts ih =>
    rw [List.forall_mem_cons] at h
    cases parts with
    | nil =>
      simpa [List.intercalate] using partsAt_of_not_mem separator part h.1
    | cons next parts =>
      have hjoin : [separator].intercalate (part :: next :: parts) =
          part ++ separator :: [separator].intercalate (next :: parts) := by
        simp [List.intercalate]
      rw [hjoin, partsAt_append separator part _ h.1, ih (by simp) h.2]

variable {elements : List Element}

/-- The line of an element is accepted, as that element. -/
theorem lineElement?_text {element : Element} (h : element.IsReadable) :
    IsLine element.text.toList ∧
      lineElement? element.text.toList =
        some (element.map Label.text).computational := by
  have hread := readLine_text Label.isWord_text h
  constructor
  · exact ⟨_, _, hread⟩
  · unfold lineElement?
    rw [Element.text, hread]

theorem toList_displayed (elements : List Element) :
    (displayed elements).toList =
      ['\n'].intercalate (elements.map fun element => element.text.toList) := by
  rw [displayed, String.toList_intercalate, List.map_map]
  rfl

/-- The lines of displayed elements are accepted, and their elements are those
that are displayed. -/
theorem lines_displayed (h : ∀ element ∈ elements, element.IsReadable) :
    (∀ line ∈ partsAt '\n' (displayed elements).toList, IsLine line) ∧
      lineElements (partsAt '\n' (displayed elements).toList) =
        elements.map fun element => (element.map Label.text).computational := by
  by_cases hnone : elements = []
  · -- nothing is displayed as one empty line
    subst hnone
    constructor
    · intro line hmem
      rw [List.mem_singleton.1 hmem]
      exact ⟨none, [], rfl⟩
    · rfl
  · have hbreak : ∀ line ∈ elements.map (fun element => element.text.toList),
        '\n' ∉ line := by
      intro line hmem
      obtain ⟨element, helement, rfl⟩ := List.mem_map.1 hmem
      exact ElementOf.not_mem_text Label.isWord_text (h element helement)
    rw [toList_displayed, partsAt_intercalate (by simpa using hnone) hbreak]
    constructor
    · intro line hmem
      obtain ⟨element, helement, rfl⟩ := List.mem_map.1 hmem
      exact (lineElement?_text (h element helement)).1
    · rw [lineElements, List.filterMap_map, ← List.filterMap_eq_map]
      apply List.filterMap_congr
      intro element helement
      exact (lineElement?_text (h element helement)).2

/-- The labels that are read are those that are displayed, by their names. -/
theorem labels_displayed (elements : List Element) :
    (elements.map fun element => (element.map Label.text).computational).flatMap
        ElementOf.labels =
      (elements.flatMap ElementOf.labels).map Label.text := by
  induction elements with
  | nil => rfl
  | cons element elements ih =>
    rw [List.map_cons, List.flatMap_cons, List.flatMap_cons, List.map_append, ih,
      ElementOf.labels_computational, ElementOf.labels_map]

end Displaying

/-- Elements with labels of their own are displayed and read back. -/
theorem assemble_displayed_eq (terminal : Terminal) {elements : List Element}
    (h : ∀ element ∈ elements, element.IsReadable) :
    ((assemble (displayed elements)).run terminal {}).1 =
      .ok (elements.map fun element =>
        (element.map (labelAt terminal.labels.size
          (elements.flatMap ElementOf.labels))).computational).toArray := by
  obtain ⟨hlines, helements⟩ := lines_displayed h
  refine assemble_eq_ok_iff.2 ⟨hlines, ?_⟩
  rw [helements, labels_displayed, List.map_map]
  congr 1
  apply List.map_congr_left
  intro element helement
  rw [Function.comp_apply, ElementOf.computational_map, ElementOf.computational_map,
    ElementOf.map_map]
  apply ElementOf.map_congr
  intro label hlabel
  rw [ElementOf.labels_computational] at hlabel
  have hmem : label ∈ elements.flatMap ElementOf.labels :=
    List.mem_flatMap.2 ⟨element, helement, hlabel⟩
  exact (labelAt_map hmem fun _ _ _ _ hsame => Label.text_injective hsame).symm

theorem ElementOf.IsStandard.map {ℓ ℓ' : Type} {element : ElementOf ℓ}
    (h : element.IsStandard) (f : ℓ → ℓ') : (element.map f).IsStandard where
  isReadable := isReadable_map.2 h.isReadable
  computational_eq := by rw [computational_map, h.computational_eq]

theorem isStandard_of_mem_lineElements {lines : List (List Char)}
    {element : ElementOf String} (hmem : element ∈ lineElements lines) :
    element.IsStandard := by
  obtain ⟨line, -, hline⟩ := List.mem_filterMap.1 hmem
  rcases hread : readLine line with ⟨fault | element?, names⟩
  · rw [lineElement?, hread] at hline
    cases hline
  · rw [lineElement?, hread] at hline
    cases hline
    exact isStandard_of_readLine hread

/-- Elements that were read from a text are standard, and their labels are those
that reading them again gives them. -/
theorem standard_of_assemble {terminal : Terminal} {source : String}
    {elements : Array Element}
    (h : ((assemble source).run terminal {}).1 = .ok elements) :
    (∀ element ∈ elements.toList, element.IsStandard) ∧
      ∀ label ∈ elements.toList.flatMap ElementOf.labels,
        labelAt terminal.labels.size (elements.toList.flatMap ElementOf.labels) label =
          label := by
  obtain ⟨-, rfl⟩ := assemble_eq_ok_iff.1 h
  generalize hread : lineElements (partsAt '\n' source.toList) = read
  generalize hhistory : read.flatMap ElementOf.labels = history
  have hlabels : (read.map (ElementOf.map
        (labelAt terminal.labels.size history))).flatMap ElementOf.labels =
      history.map (labelAt terminal.labels.size history) := by
    rw [List.flatMap_map, ← hhistory, List.map_flatMap]
    simp only [ElementOf.labels_map]
  constructor
  · intro element hmem
    obtain ⟨named, hnamed, rfl⟩ := List.mem_map.1 hmem
    rw [← hread] at hnamed
    exact (isStandard_of_mem_lineElements hnamed).map _
  · intro label hmem
    rw [hlabels] at hmem ⊢
    obtain ⟨name, hname, rfl⟩ := List.mem_map.1 hmem
    exact labelAt_map hname fun _ ha _ _ hsame => labelAt_inj ha hsame

/-- **Displayed elements are read back.**  The kinds of loads, stores and returns
become those that are executed, and the labels are numbered on from those of the
terminal, in the order in which they are mentioned first.  What was read from any
text is read back without a change. -/
theorem assemble_displayed :
    (∀ (terminal : Terminal) (elements : List Element),
      (∀ element ∈ elements, element.IsReadable) →
        ((assemble (displayed elements)).run terminal {}).1 =
          .ok (elements.map fun element =>
            (element.map (labelAt terminal.labels.size
              (elements.flatMap ElementOf.labels))).computational).toArray) ∧
    ∀ (terminal other : Terminal) (source : String) (elements : Array Element),
      other.labels.size = terminal.labels.size →
      ((assemble source).run terminal {}).1 = .ok elements →
        ((assemble (displayed elements.toList)).run other {}).1 = .ok elements := by
  constructor
  · intro terminal elements h
    exact assemble_displayed_eq terminal h
  · intro terminal other source elements hsize h
    obtain ⟨hstandard, hlabels⟩ := standard_of_assemble h
    have hsame (element : Element) (hmem : element ∈ elements.toList) :
        (element.map (labelAt terminal.labels.size
          (elements.toList.flatMap ElementOf.labels))).computational = element := by
      have hkept : element.map (labelAt terminal.labels.size
          (elements.toList.flatMap ElementOf.labels)) = element.map id :=
        ElementOf.map_congr fun label hlabel =>
          hlabels label (List.mem_flatMap.2 ⟨element, hmem, hlabel⟩)
      rw [hkept, ElementOf.map_id, (hstandard element hmem).computational_eq]
    have hreadable (element : Element) (hmem : element ∈ elements.toList) :
        element.IsReadable := (hstandard element hmem).isReadable
    rw [assemble_displayed_eq other hreadable, hsize, List.map_congr_left hsame,
      List.map_id', Array.toArray_toList]

/-- A loop over a `byte`, with labels that are in use elsewhere, is displayed and
read back as one over an `int`, and this one is displayed and read back as it
is. -/
theorem assemble_displayed_loop :
    ((assemble (displayed [.label ⟨7⟩, .load .byte 300, .branch (.test (.zero .lt) ⟨4⟩),
          .branch (.tableSwitch ⟨4⟩ (-1) [⟨7⟩]), .label ⟨4⟩])).run
        (.buffered (.withInitialLocals 1)) {}).1 =
      .ok #[.label ⟨0⟩, .load .int 300, .branch (.test (.zero .lt) ⟨1⟩),
        .branch (.tableSwitch ⟨1⟩ (-1) [⟨0⟩]), .label ⟨1⟩] ∧
    ((assemble (displayed [.label ⟨0⟩, .load .int 300, .branch (.test (.zero .lt) ⟨1⟩),
          .branch (.tableSwitch ⟨1⟩ (-1) [⟨0⟩]), .label ⟨1⟩])).run
        (.direct (.withInitialLocals 2)) {}).1 =
      .ok #[.label ⟨0⟩, .load .int 300, .branch (.test (.zero .lt) ⟨1⟩),
        .branch (.tableSwitch ⟨1⟩ (-1) [⟨0⟩]), .label ⟨1⟩] := by
  have hread := assemble_displayed.1 (.buffered (.withInitialLocals 1))
    [.label ⟨7⟩, .load .byte 300, .branch (.test (.zero .lt) ⟨4⟩),
      .branch (.tableSwitch ⟨4⟩ (-1) [⟨7⟩]), .label ⟨4⟩]
    (by simp [ElementOf.IsReadable])
  have helements : ([.label ⟨7⟩, .load .byte 300, .branch (.test (.zero .lt) ⟨4⟩),
      .branch (.tableSwitch ⟨4⟩ (-1) [⟨7⟩]), .label ⟨4⟩] : List Element).map
        (fun element => (element.map (labelAt 0
          [⟨7⟩, ⟨4⟩, ⟨4⟩, ⟨7⟩, ⟨4⟩])).computational) =
      [.label ⟨0⟩, .load .int 300, .branch (.test (.zero .lt) ⟨1⟩),
        .branch (.tableSwitch ⟨1⟩ (-1) [⟨0⟩]), .label ⟨1⟩] := by
    decide
  have hloop := hread.trans (congrArg (fun read => Except.ok read.toArray) helements)
  refine ⟨hloop, ?_⟩
  exact assemble_displayed.2 (.buffered (.withInitialLocals 1))
    (.direct (.withInitialLocals 2)) _ _ rfl hloop

end JvmMethod
