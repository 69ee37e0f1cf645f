import JvmMethod.Proofs.BlockStack

/-!
# The labels of emitted code

A terminal hands out the first label that it does not know, and takes no label
twice.  So of what arrives while a script is run, no two elements place the same
label, and the labels that are handed out meanwhile are apart from those that
were known before.

`LabelTable.Grows` says so of the label table of the terminal, and is kept by
every script (`BlockStack.grows_run`).
-/

namespace JvmMethod

variable {ω α : Type}

namespace Direct

variable (direct : Direct)

/-- A push that fails places no label. -/
theorem labels_push_error {element : Element} {fault : Fault} {next : Direct}
    (h : direct.push element = (.error fault, next)) :
    next.labels = direct.labels := by
  obtain ⟨⟨code, fixups, rfl⟩, -⟩ := push_error h
  rfl

theorem labels_allocate (kind : Kind) :
    (direct.allocate kind).2.labels = direct.labels := by
  simp only [allocate]
  split <;> rfl

end Direct

namespace LabelTable

/-- Between two states of a table, some labels were placed, and no label that
had a place before. -/
structure Grows (before : LabelTable) (placed : List Label) (after : LabelTable) :
    Prop where
  size_le : before.size ≤ after.size
  keeps : ∀ label, before.isBound label = true → after.isBound label = true
  unbound : ∀ label ∈ placed, before.isBound label = false
  bound : ∀ label ∈ placed, after.isBound label = true
  nodup : placed.Nodup

variable {before middle after : LabelTable} {early late : List Label}

theorem Grows.of_eq (h : after = before) : before.Grows [] after := by
  subst h
  exact ⟨Nat.le_refl _, fun _ hbound => hbound, by simp, by simp, .nil⟩

theorem Grows.append (h : before.Grows early middle) (hlate : middle.Grows late after) :
    before.Grows (early ++ late) after where
  size_le := Nat.le_trans h.size_le hlate.size_le
  keeps label hbound := hlate.keeps label (h.keeps label hbound)
  unbound := by
    intro label hmem
    rcases List.mem_append.1 hmem with hearly | hlater
    · exact h.unbound label hearly
    · by_contra hbound
      have hmiddle := h.keeps label (by simpa using hbound)
      rw [hlate.unbound label hlater] at hmiddle
      cases hmiddle
  bound := by
    intro label hmem
    rcases List.mem_append.1 hmem with hearly | hlater
    · exact hlate.keeps label (h.bound label hearly)
    · exact hlate.bound label hlater
  nodup := by
    refine List.nodup_append.2 ⟨h.nodup, hlate.nodup, ?_⟩
    intro label hearly other hlater
    rintro rfl
    have hunbound := hlate.unbound label hlater
    rw [h.bound label hearly] at hunbound
    cases hunbound

theorem Grows.fresh (table : LabelTable) : table.Grows [] table.fresh.2 where
  size_le := by simp
  keeps label hbound := by simpa [isBound] using hbound
  unbound := by simp
  bound := by simp
  nodup := .nil

theorem Grows.placing {table : LabelTable} {placed? : Option Label} {position : Nat}
    (h : ∀ label, placed? = some label → table.position? label = none) :
    table.Grows placed?.toList (table.placing placed? position) where
  size_le := by
    rw [size_placing]
    omega
  keeps label hbound := by simp [isBound_placing h, hbound]
  unbound := by
    intro label hmem
    exact isBound_eq_false_iff.2 (h label (Option.mem_toList.1 hmem))
  bound := by
    intro label hmem
    rw [isBound_placing h, Option.mem_toList.1 hmem]
    simp
  nodup := by cases placed? <;> simp

end LabelTable

namespace Terminal

/-- What the terminal knows of labels. -/
def labels : Terminal → LabelTable
  | .direct state => state.labels
  | .buffered state => state.labels

variable {terminal next : Terminal} {element : Element}

theorem freshLabel_eq (terminal : Terminal) :
    terminal.freshLabel.1 = ⟨terminal.labels.size⟩ ∧
      terminal.freshLabel.2.labels = terminal.labels.fresh.2 := by
  cases terminal <;> exact ⟨rfl, rfl⟩

theorem labels_allocate (terminal : Terminal) (kind : Kind) :
    (terminal.allocate kind).2.labels = terminal.labels := by
  cases terminal with
  | direct state => exact state.labels_allocate kind
  | buffered state =>
    simp only [allocate, Buffered.allocate]
    split <;> rfl

/-- A label is placed once, by a push that is not refused. -/
theorem push_cases (terminal : Terminal) (element : Element) :
    (∃ fault next, terminal.push element = (.error fault, next) ∧
        next.labels = terminal.labels) ∨
      ∃ next, terminal.push element = (.ok (), next) ∧
        terminal.labels.Grows element.placed?.toList next.labels := by
  cases terminal with
  | direct state =>
    rcases hpush : state.push element with ⟨fault | ⟨⟩, next⟩
    · refine .inl ⟨fault, .direct next, ?_, state.labels_push_error hpush⟩
      simp only [push, hpush]
    · obtain ⟨htakes, rfl⟩ := Direct.push_eq_ok_iff.1 hpush
      refine .inr ⟨.direct (state.taken element), ?_, .placing htakes.unplaced⟩
      simp only [push, hpush]
  | buffered state =>
    cases element with
    | label label =>
      by_cases hbound : state.labels.isBound label = true
      · refine .inl ⟨.labelAlreadyBound label, .buffered state, ?_, rfl⟩
        simp only [push, Buffered.push, hbound, if_true]
      · refine .inr ⟨.buffered (state.push (.label label)).2, ?_, ?_⟩
        · simp only [push, Buffered.push, hbound]
          rfl
        · have hnone := LabelTable.isBound_eq_false_iff.1 (by simpa using hbound)
          have hplaces : state.labels.Grows [label]
              (state.labels.assign label state.elements.size) :=
            @LabelTable.Grows.placing state.labels (some label)
              state.elements.size (by rintro other ⟨⟩; exact hnone)
          simpa [labels, Buffered.push, hbound, ElementOf.placed?] using hplaces
    | _ => exact .inr ⟨_, rfl, .of_eq rfl⟩

end Terminal

/-- The labels that are placed by what arrives. -/
def placedLabels (came : List Arrival) : List Label :=
  came.filterMap fun arrival => arrival.element.placed?

namespace BlockStack

variable {stack after : BlockStack} {ambient later : ω}

theorem grows_answer (stack : BlockStack) (request : Request) :
    stack.terminal.labels.Grows
      (placedLabels (request.arrivals (stack.answer request).1))
      (stack.answer request).2.terminal.labels := by
  cases request with
  | push element | terminalPush element =>
    simp only [answer]
    rcases stack.terminal.push_cases element with
      ⟨fault, next, hpush, hsame⟩ | ⟨next, hpush, hgrows⟩
    · rw [hpush]
      exact .of_eq hsame
    · rw [hpush]
      cases hplaced : element.placed? <;>
        simpa [Request.arrivals, placedLabels, Arrival.element, hplaced] using
          hgrows
  | freshLabel =>
    have hfresh := stack.terminal.freshLabel_eq.2
    simp only [answer, hfresh]
    exact .fresh _
  | allocate kind =>
    simp only [answer]
    split
    · exact .of_eq (stack.terminal.labels_allocate kind)
    · exact .of_eq rfl
  | terminalAllocate kind => exact .of_eq (stack.terminal.labels_allocate kind)
  | topLocal | terminal | layers => exact .of_eq rfl

/-- **Labels are placed once**, and those that are known stay known. -/
theorem grows_run (script : Script ω α) (stack : BlockStack) (ambient : ω) :
    stack.terminal.labels.Grows (placedLabels (arrivals script stack ambient))
      (run script stack ambient).2.1.terminal.labels := by
  refine run_induction (motive := fun stack came after =>
    stack.terminal.labels.Grows (placedLabels came) after.terminal.labels)
    ?_ ?_ script stack ambient
  · exact fun stack => .of_eq rfl
  · intro stack request came after hrest
    have happend := (stack.grows_answer request).append hrest
    simpa only [placedLabels, List.filterMap_append] using happend

end BlockStack

end JvmMethod
