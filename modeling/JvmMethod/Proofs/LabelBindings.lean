import JvmMethod.Proofs.TerminalAgreement

/-!
# Labels are handed out once and placed once

A label may be given a position before the table has handed it out, and then the
table grows past it.  So what a table hands out next depends on all that was done
with it: `LabelTable.Records` ties a table to its history, and has the numbers of
all labels in it below the size of the table.

* `LabelTable.bind_eq_ok_iff`, `LabelTable.bind_eq_error_iff`: when a label is given
  a position, and what is left behind when it is not.
* `LabelTable.Records.perform`: one operation more.
* `Buffered.LabelsInStep`: the positions of a buffered terminal are the places of
  the labels among its elements, and a label that has a place is refused another.
* `handles_unique_bindings_final`: a table after any operations, and the table of a
  buffered terminal after any run.
-/

namespace JvmMethod

/-- What is done with a table of labels. -/
inductive LabelStep where
  | fresh
  | reserve (count : Nat)
  | bind (label : Label) (position : Nat)

/-- What was done, and how the table answered. -/
inductive LabelEvent where
  | handedOut (label : Label)
  | reserved (count : Nat)
  | bound (label : Label) (position : Nat) (answer : Except Fault Unit)

/-- The label is one that the event is about. -/
def LabelEvent.Concerns (label : Label) : LabelEvent → Prop
  | .handedOut other => label = other
  | .reserved count => label.index < count
  | .bound other _ _ => label = other

namespace LabelTable

/-- Does a step, and tells how the table answers. -/
def perform (table : LabelTable) : LabelStep → LabelEvent × LabelTable
  | .fresh => (.handedOut table.fresh.1, table.fresh.2)
  | .reserve count => (.reserved count, table.reserve count)
  | .bind label position =>
      (.bound label position (table.bind label position).1,
        (table.bind label position).2)

/-- Does steps one after the other, whatever the answers are. -/
def performAll (table : LabelTable) : List LabelStep → List LabelEvent × LabelTable
  | [] => ([], table)
  | step :: steps =>
      let first := table.perform step
      let rest := first.2.performAll steps
      (first.1 :: rest.1, rest.2)

/-- The table is what a history has made of it. -/
structure Records (history : List LabelEvent) (table : LabelTable) : Prop where
  position?_eq_some_iff : ∀ label position,
    table.position? label = some position ↔
      .bound label position (.ok ()) ∈ history
  known : ∀ event ∈ history, ∀ label, event.Concerns label →
    label.index < table.size

section Binding

variable {table next : LabelTable} {label : Label} {position : Nat} {fault : Fault}

/-- A label is given a position if it has none. -/
theorem bind_eq_ok_iff :
    table.bind label position = (.ok (), next) ↔
      table.position? label = none ∧ next = table.assign label position := by
  rw [bind_eq, ← isBound_eq_false_iff]
  cases table.isBound label <;> simp [eq_comm]

/-- A label that has a position is refused another one, and then the table is what it
was. -/
theorem bind_eq_error_iff :
    table.bind label position = (.error fault, next) ↔
      (∃ old, table.position? label = some old) ∧
        fault = .labelAlreadyBound label ∧ next = table := by
  rw [bind_eq, ← Option.isSome_iff_exists, ← isBound]
  cases table.isBound label <;> simp [eq_comm]

end Binding

/-- The later table has room for all labels of the earlier one, and those that had a
position have kept it. -/
structure GrowsTo (table later : LabelTable) : Prop where
  size_le : table.size ≤ later.size
  keeps_places : later.Extends table

namespace GrowsTo

variable {table middle later : LabelTable}

theorem refl (table : LabelTable) : table.GrowsTo table :=
  ⟨Nat.le_refl _, fun _ _ hplace => hplace⟩

theorem trans (h : table.GrowsTo middle) (hrest : middle.GrowsTo later) :
    table.GrowsTo later where
  size_le := Nat.le_trans h.size_le hrest.size_le
  keeps_places label position hplace :=
    hrest.keeps_places label position (h.keeps_places label position hplace)

/-- No step takes anything back. -/
theorem perform (table : LabelTable) (step : LabelStep) :
    table.GrowsTo (table.perform step).2 := by
  cases step with
  | fresh =>
    refine ⟨?_, fun label position hplace => ?_⟩
    · simp only [LabelTable.perform, size_fresh]
      omega
    · rwa [LabelTable.perform, position?_fresh]
  | reserve count =>
    refine ⟨?_, fun label position hplace => ?_⟩
    · simp only [LabelTable.perform, size_reserve]
      omega
    · rwa [LabelTable.perform, position?_reserve]
  | bind placed place =>
    rcases hbind : table.bind placed place with ⟨fault | ⟨⟩, next⟩
    · obtain ⟨-, -, rfl⟩ := bind_eq_error_iff.1 hbind
      simp only [LabelTable.perform, hbind]
      exact refl next
    · obtain ⟨hnone, rfl⟩ := bind_eq_ok_iff.1 hbind
      simp only [LabelTable.perform, hbind]
      refine ⟨?_, fun label position hplace => ?_⟩
      · rw [size_assign]
        omega
      · have hother : label ≠ placed := by
          rintro rfl
          rw [hnone] at hplace
          cases hplace
        rwa [position?_assign, if_neg hother]

theorem performAll (table : LabelTable) (steps : List LabelStep) :
    table.GrowsTo (table.performAll steps).2 := by
  induction steps generalizing table with
  | nil => exact refl table
  | cons step steps ih => exact (perform table step).trans (ih _)

end GrowsTo

namespace Records

variable {table : LabelTable} {history : List LabelEvent}

theorem start : Records [] {} where
  position?_eq_some_iff label position := by simp [position?]
  known event hmem := by cases hmem

/-- A step that gives no label a position, and has room for the labels that it is
about. -/
theorem of_unplaced (h : table.Records history) {event : LabelEvent}
    {next : LabelTable} (hgrows : table.GrowsTo next)
    (hplaces : ∀ label, next.position? label = table.position? label)
    (hevent : ∀ label position, event ≠ .bound label position (.ok ()))
    (hknown : ∀ label, event.Concerns label → label.index < next.size) :
    next.Records (history ++ [event]) where
  position?_eq_some_iff label position := by
    rw [hplaces, h.position?_eq_some_iff, List.mem_append, List.mem_singleton]
    simp [Ne.symm (hevent label position)]
  known earlier hmem label hconcerns := by
    rcases List.mem_append.1 hmem with hold | hnew
    · exact Nat.lt_of_lt_of_le (h.known earlier hold label hconcerns) hgrows.size_le
    · cases List.mem_singleton.1 hnew
      exact hknown label hconcerns

/-- **One step more.** -/
theorem perform (h : table.Records history) (step : LabelStep) :
    (table.perform step).2.Records (history ++ [(table.perform step).1]) := by
  have hgrows := GrowsTo.perform table step
  cases step with
  | fresh =>
    refine h.of_unplaced hgrows (fun label => table.position?_fresh label)
      (by simp [LabelTable.perform]) ?_
    rintro label rfl
    simp only [LabelTable.perform, size_fresh]
    exact Nat.lt_succ_self table.size
  | reserve count =>
    refine h.of_unplaced hgrows (fun label => table.position?_reserve label count)
      (by simp [LabelTable.perform]) ?_
    intro label hconcerns
    have hlt : label.index < count := hconcerns
    simp only [LabelTable.perform, size_reserve]
    omega
  | bind placed place =>
    rcases hbind : table.bind placed place with ⟨fault | ⟨⟩, next⟩
    · obtain ⟨⟨old, hplace⟩, -, rfl⟩ := bind_eq_error_iff.1 hbind
      simp only [LabelTable.perform, hbind] at hgrows ⊢
      refine h.of_unplaced hgrows (fun _ => rfl) (by simp) ?_
      rintro label rfl
      exact index_lt_size hplace
    · obtain ⟨hnone, rfl⟩ := bind_eq_ok_iff.1 hbind
      simp only [LabelTable.perform, hbind] at hgrows ⊢
      constructor
      case position?_eq_some_iff =>
        intro label position
        rw [List.mem_append, List.mem_singleton, ← h.position?_eq_some_iff,
          position?_assign]
        by_cases hsame : label = placed
        · simp [hsame, hnone, eq_comm]
        · simp [hsame]
      case known =>
        intro event hmem label hconcerns
        rcases List.mem_append.1 hmem with hold | hnew
        · exact Nat.lt_of_lt_of_le (h.known event hold label hconcerns)
            hgrows.size_le
        · cases List.mem_singleton.1 hnew
          obtain rfl : label = placed := hconcerns
          rw [size_assign]
          omega

theorem performAll (h : table.Records history) (steps : List LabelStep) :
    (table.performAll steps).2.Records (history ++ (table.performAll steps).1) := by
  induction steps generalizing table history with
  | nil => rwa [LabelTable.performAll, List.append_nil]
  | cons step steps ih =>
    have hrest := ih (h.perform step)
    rwa [List.append_assoc] at hrest

/-- A label that is handed out next has a higher number than every label that was
handed out, reserved or bound before. -/
theorem lt_fresh (h : table.Records history) {event : LabelEvent}
    (hmem : event ∈ history) {label : Label} (hconcerns : event.Concerns label) :
    label.index < table.fresh.1.index :=
  h.known event hmem label hconcerns

/-- A label that is handed out next has no position. -/
theorem fresh_unplaced (table : LabelTable) :
    table.position? table.fresh.1 = none ∧
      table.fresh.2.position? table.fresh.1 = none := by
  have hnone : table.position? table.fresh.1 = none := by
    cases hplace : table.position? table.fresh.1 with
    | none => rfl
    | some position => exact absurd (index_lt_size hplace) (Nat.lt_irrefl _)
  exact ⟨hnone, by rw [position?_fresh, hnone]⟩

/-- Binding a label fails exactly if it was bound before. -/
theorem bind_fails_iff (h : table.Records history) {label : Label} {position : Nat}
    {fault : Fault} {next : LabelTable} :
    table.bind label position = (.error fault, next) ↔
      (∃ old, .bound label old (.ok ()) ∈ history) ∧
        fault = .labelAlreadyBound label ∧ next = table := by
  simp only [bind_eq_error_iff, h.position?_eq_some_iff]

end Records

end LabelTable

namespace Buffered

/-- A label has a position exactly if it is the element there. -/
def LabelsInStep (buffered : Buffered) : Prop :=
  ∀ label index, buffered.labels.position? label = some index ↔
    buffered.elements[index]? = some (.label label)

/-- Pushing a label binds it to the number of elements in front of it. -/
theorem push_label (buffered : Buffered) (label : Label) :
    buffered.push (.label label) =
      match buffered.labels.bind label buffered.elements.size with
      | (.error fault, labels) => (.error fault, { buffered with labels })
      | (.ok (), labels) =>
          (.ok (), { buffered with
            elements := buffered.elements.push (.label label), labels }) := by
  rw [LabelTable.bind_eq, push]
  cases buffered.labels.isBound label <;> rfl

namespace LabelsInStep

variable {buffered : Buffered}

theorem start (initial : Slot) : (withInitialLocals initial).LabelsInStep := by
  intro label index
  simp [withInitialLocals, LabelTable.position?]

/-- No label is placed behind the last element. -/
theorem position?_ne_size (h : buffered.LabelsInStep) (label : Label) :
    buffered.labels.position? label ≠ some buffered.elements.size := by
  rw [Ne, h label, Array.getElem?_eq_none (Nat.le_refl _)]
  rintro ⟨⟩

/-- An element more that is no label. -/
theorem push_other (h : buffered.LabelsInStep) {element : Element}
    (hother : ∀ label, element ≠ .label label) :
    LabelsInStep { buffered with elements := buffered.elements.push element } := by
  intro label index
  rw [Array.getElem?_push]
  split
  · next hlast => simp [hlast, h.position?_ne_size label, hother label]
  · exact h label index

/-- **An element more**, or one that is refused. -/
theorem push (h : buffered.LabelsInStep) (element : Element) :
    (buffered.push element).2.LabelsInStep := by
  cases element with
  | label placed =>
    rw [push_label]
    rcases hbind : buffered.labels.bind placed buffered.elements.size with
      ⟨fault | ⟨⟩, labels⟩
    · obtain ⟨-, -, rfl⟩ := LabelTable.bind_eq_error_iff.1 hbind
      exact h
    · obtain ⟨hnone, rfl⟩ := LabelTable.bind_eq_ok_iff.1 hbind
      intro label index
      have hearlier := h label index
      rw [LabelTable.position?_assign, Array.getElem?_push]
      by_cases hsame : label = placed <;> by_cases hlast : index = buffered.elements.size
      · simp [hsame, hlast]
      · rw [hsame, hnone] at hearlier
        simpa [hsame, hlast, eq_comm] using hearlier
      · simp [hsame, hlast, h.position?_ne_size label, Ne.symm hsame]
      · simpa [hsame, hlast] using hearlier
  | _ => exact h.push_other (by rintro _ ⟨⟩)

theorem perform (h : buffered.LabelsInStep) (operation : Operation) :
    (buffered.perform operation).2.LabelsInStep := by
  cases operation with
  | push element => exact h.push element
  | freshLabel =>
    intro label index
    simp only [Buffered.perform, freshLabel, LabelTable.position?_fresh]
    exact h label index
  | allocate kind =>
    simp only [Buffered.perform, allocate]
    split <;> exact h

theorem performAll (h : buffered.LabelsInStep) (operations : List Operation) :
    (performAll Buffered.perform buffered operations).2.LabelsInStep := by
  induction operations generalizing buffered with
  | nil => exact h
  | cons operation operations ih => exact ih (h.perform operation)

/-- An element is refused exactly if it places a label that has a place already. -/
theorem push_eq_error_iff (h : buffered.LabelsInStep) {element : Element}
    {fault : Fault} {later : Buffered} :
    buffered.push element = (.error fault, later) ↔
      ∃ label, element = .label label ∧
        (∃ index : Nat, buffered.elements[index]? = some element) ∧
        fault = .labelAlreadyBound label ∧ later = buffered := by
  have hbound (label : Label) : buffered.labels.isBound label = true ↔
      ∃ index : Nat, buffered.elements[index]? = some (.label label) := by
    simp only [LabelTable.isBound, Option.isSome_iff_exists, h label]
  rw [Buffered.push_eq_error_iff]
  constructor
  · rintro ⟨label, rfl, hplaced, hanswer⟩
    exact ⟨label, rfl, (hbound label).1 hplaced, hanswer⟩
  · rintro ⟨label, rfl, hplaced, hanswer⟩
    exact ⟨label, rfl, (hbound label).2 hplaced, hanswer⟩

/-- A label is in one place at most. -/
theorem index_unique (h : buffered.LabelsInStep) {label : Label} {index other : Nat}
    (hindex : buffered.elements[index]? = some (.label label))
    (hother : buffered.elements[other]? = some (.label label)) : index = other := by
  rw [← h label] at hindex hother
  exact Option.some.inj (hindex.symm.trans hother)

end LabelsInStep

end Buffered

/-- **Handles are unique and bindings final.**  Whatever was done with a table of
labels, the label that it hands out next has no position, and a higher number than
all labels that were handed out, reserved or bound before.  Binding a label fails
exactly if it was bound before, and then nothing has changed.  The labels that were
bound have their positions, now and later, the others have none, and the table never
shrinks.  So in a buffered terminal, whatever was done with it, the position of a
label is the index of the one element that places it.  Another element that places it
is refused, and changes nothing; all others become the last element. -/
theorem handles_unique_bindings_final :
    (∀ steps more : List LabelStep,
      let session := LabelTable.performAll {} steps
      let table := session.2
      let later := (table.performAll more).2
      (∀ event ∈ session.1, ∀ label, event.Concerns label →
        label.index < table.fresh.1.index) ∧
      (table.position? table.fresh.1 = none ∧
        table.fresh.2.position? table.fresh.1 = none) ∧
      (∀ label position fault next,
        table.bind label position = (.error fault, next) ↔
          (∃ old, .bound label old (.ok ()) ∈ session.1) ∧
            fault = .labelAlreadyBound label ∧ next = table) ∧
      (∀ label position, table.position? label = some position ↔
        .bound label position (.ok ()) ∈ session.1) ∧
      (∀ label position, table.position? label = some position →
        later.position? label = some position) ∧
      table.size ≤ later.size) ∧
    ∀ (initial : Slot) (operations : List Operation),
      let buffered :=
        (performAll Buffered.perform (.withInitialLocals initial) operations).2
      (∀ label index, buffered.labels.position? label = some index ↔
        buffered.elements[index]? = some (.label label)) ∧
      (∀ (label : Label) (index other : Nat),
        buffered.elements[index]? = some (.label label) →
        buffered.elements[other]? = some (.label label) → index = other) ∧
      ∀ (element : Element) (later : Buffered),
        (∀ fault, buffered.push element = (.error fault, later) ↔
          ∃ label, element = .label label ∧
            (∃ index : Nat, buffered.elements[index]? = some element) ∧
            fault = .labelAlreadyBound label ∧ later = buffered) ∧
        (buffered.push element = (.ok (), later) →
          later.elements = buffered.elements.push element) := by
  refine ⟨?table, ?buffered⟩
  case table =>
    intro steps more session table later
    have hrecords : table.Records session.1 := LabelTable.Records.start.performAll steps
    have hgrows : table.GrowsTo later := LabelTable.GrowsTo.performAll table more
    refine ⟨?_, LabelTable.Records.fresh_unplaced table, ?_,
      hrecords.position?_eq_some_iff, hgrows.keeps_places, hgrows.size_le⟩
    · exact fun event hmem label hconcerns => hrecords.lt_fresh hmem hconcerns
    · exact fun label position fault next => hrecords.bind_fails_iff
  case buffered =>
    intro initial operations buffered
    have hstep : buffered.LabelsInStep :=
      (Buffered.LabelsInStep.start initial).performAll operations
    refine ⟨hstep, fun label index other => hstep.index_unique, ?_⟩
    intro element later
    refine ⟨fun fault => hstep.push_eq_error_iff, fun hpush => ?_⟩
    have hlast := Buffered.elements_push (congrArg Prod.fst hpush)
    rwa [hpush] at hlast

end JvmMethod
