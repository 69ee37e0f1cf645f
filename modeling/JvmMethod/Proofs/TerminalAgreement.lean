import JvmMethod.Proofs.TwoPassAssembly

/-!
# Both terminals make the same body

The direct terminal refuses elements as they arrive; the buffered one takes
nearly all of them, and replays them on a direct terminal when it is finished.
The replay starts where the other one ended: with all labels known and all slots
handed out.

What the direct terminal makes of its elements depends on the elements alone,
apart from the number of labels and of slots.  So a run of the direct terminal
and a replay of what was pushed in it can be compared by `Direct.Encodes`, which
both states satisfy.

* `Direct.Encodes.replay_iff`: the pushes of a run all succeed exactly if the
  replay of its elements does.
* `Lockstep.run`: the terminals answer alike as long as the direct one takes
  every element.
* `completes_iff`: a run succeeds on one terminal with given answers and a given
  body exactly if it does on the other.
-/

namespace JvmMethod

/-- The end of the highest slot that one of the elements is about. -/
def slotsEnd (elements : List Element) : Nat :=
  (elements.map ElementOf.slotEnd).foldl max 0

@[simp] theorem slotsEnd_append (elements : List Element) (element : Element) :
    slotsEnd (elements ++ [element]) = max (slotsEnd elements) element.slotEnd := by
  simp [slotsEnd]

namespace LabelTable

variable {labels others : LabelTable}

/-- A table is told by its size and the positions of the labels. -/
theorem ext_position? (hsize : labels.size = others.size)
    (hplaces : labels.position? = others.position?) : labels = others := by
  obtain ⟨positions⟩ := labels
  obtain ⟨positions'⟩ := others
  congr 1
  refine Array.ext hsize fun index hlt hlt' => ?_
  have := congrFun hplaces ⟨index⟩
  simpa [position?, hlt, hlt'] using this

end LabelTable

namespace Direct

variable {direct other next : Direct} {elements more : List Element}
  {element : Element}

/-- The highest slot end that is noted is the one of the elements, unless more
slots were handed out. -/
def NotesLocals (elements : List Element) (direct : Direct) : Prop :=
  max direct.maxLocals direct.topLocal.toNat =
    max direct.topLocal.toNat (slotsEnd elements)

theorem NotesLocals.taken (h : NotesLocals elements direct) :
    NotesLocals (elements ++ [element]) (direct.taken element) := by
  simp only [NotesLocals, Direct.taken, Direct.draft, slotsEnd_append] at h ⊢
  omega

theorem NotesLocals.allocate (h : NotesLocals elements direct) (kind : Kind) :
    NotesLocals elements (direct.allocate kind).2 := by
  unfold Direct.allocate
  split
  · exact h
  · next top hclaim =>
    have := toNat_of_claimSlot hclaim
    simp only [NotesLocals] at h ⊢
    omega

namespace Encodes

/-- States that hold the same elements take the same ones. -/
theorem takes_congr (h : Encodes elements direct) (hother : Encodes elements other)
    (htakes : direct.Takes element) : other.Takes element := by
  have hsize : other.code.size = direct.code.size := by
    rw [h.code_size, hother.code_size]
  have hplaces (label : Label) :
      other.labels.position? label = direct.labels.position? label := by
    rw [h.position?, hother.position?]
  constructor
  case not_void => exact htakes.not_void
  case unplaced =>
    intro label hplaced
    rw [hplaces]
    exact htakes.unplaced label hplaced
  case encodable =>
    rw [hsize]
    exact htakes.encodable
  case fits =>
    rw [hsize]
    intro piece hmem
    have hfits := htakes.fits piece hmem
    cases piece with
    | byte _ | far _ => trivial
    | near label =>
      intro target hplace
      rw [hplaces] at hplace
      exact hfits target hplace

/-- Finishing depends on the elements, the labels and the number of slots. -/
theorem finish_congr {body : MethodBody} (h : Encodes elements direct)
    (hother : Encodes elements other) (hlabels : direct.labels = other.labels)
    (hlocals : direct.neededLocals = other.neededLocals) :
    direct.finish = .ok body ↔ other.finish = .ok body := by
  have hsize : direct.code.size = other.code.size := by
    rw [h.code_size, hother.code_size]
  have hhandlers : direct.handlers = other.handlers :=
    Array.toList_inj.1 (h.handlers.trans hother.handlers.symm)
  have hlines : direct.lines = other.lines :=
    Array.toList_inj.1 (h.lines.trans hother.lines.symm)
  have hvariables : direct.localVariables = other.localVariables :=
    Array.toList_inj.1 (h.localVariables.trans hother.localVariables.symm)
  have htypes : direct.localVariableTypes = other.localVariableTypes :=
    Array.toList_inj.1 (h.localVariableTypes.trans hother.localVariableTypes.symm)
  rw [finish_eq_ok_iff, finish_eq_ok_iff, h.applyFixups_iff,
    hother.applyFixups_iff, hsize, hlabels, hhandlers, hlines, hvariables, htypes,
    hlocals]

/-- Replaying an element is pushing it. -/
theorem replay_eq_ok_iff :
    Buffered.replay direct element = .ok next ↔
      direct.Takes element ∧ next = direct.taken element := by
  rw [← push_eq_ok_iff]
  rcases hpush : direct.push element with ⟨fault | answer, after⟩ <;>
    simp [Buffered.replay, hpush]

/-- **Runs and replays take the same elements.**  In a run labels and slots may
be asked for in between. -/
theorem replay_iff {operations : List Operation} (h : Encodes elements direct)
    (hother : Encodes elements other) :
    NoPushFails (performAll perform direct operations).1 ↔
      ∃ final, (pushedElements operations).foldlM Buffered.replay other =
        .ok final := by
  induction operations generalizing elements direct other with
  | nil => exact iff_of_true noPushFails_nil ⟨other, rfl⟩
  | cons operation operations ih =>
    rw [performAll_cons]
    cases operation with
    | push element =>
      simp only [perform, noPushFails_pushed_cons, pushedElements,
        List.foldlM_cons, bind_eq_ok, replay_eq_ok_iff]
      by_cases htakes : direct.Takes element
      · have hpush := push_eq_ok_iff.2 ⟨htakes, rfl⟩
        have hother' := h.takes_congr hother htakes
        have hnext := ih (h.taken htakes) (hother.taken hother')
        simp only [hpush, hnext, true_and]
        constructor
        · intro hreplay
          obtain ⟨final, hfinal⟩ := hreplay
          exact ⟨final, _, ⟨hother', rfl⟩, hfinal⟩
        · intro hreplay
          obtain ⟨final, _, ⟨-, rfl⟩, hfinal⟩ := hreplay
          exact ⟨final, hfinal⟩
      · refine iff_of_false ?_ ?_
        · intro hpushes
          obtain ⟨hpush, -⟩ := hpushes
          exact htakes (push_eq_ok_iff.1 (Prod.ext hpush rfl)).1
        · intro hreplay
          obtain ⟨-, -, ⟨hother', -⟩, -⟩ := hreplay
          exact htakes (hother.takes_congr h hother')
    | freshLabel =>
      simp only [perform, noPushFails_cons, pushedElements]
      simpa using ih h.freshLabel hother
    | allocate kind =>
      simp only [perform, noPushFails_cons, pushedElements]
      simpa using ih (h.allocate kind) hother

/-- What a replay leads to, if the labels that it places are known. -/
theorem foldlM_replay (h : Encodes elements direct)
    (hnotes : NotesLocals elements direct)
    (hknown : ∀ label ∈ more.filterMap ElementOf.placed?,
      label.index < direct.labels.size)
    (hreplay : more.foldlM Buffered.replay direct = .ok next) :
    Encodes (elements ++ more) next ∧ NotesLocals (elements ++ more) next ∧
      next.topLocal = direct.topLocal ∧
      next.labels.size = direct.labels.size := by
  induction more generalizing elements direct with
  | nil =>
    cases hreplay
    rw [List.append_nil]
    exact ⟨h, hnotes, rfl, rfl⟩
  | cons element more ih =>
    rw [List.foldlM_cons, bind_eq_ok] at hreplay
    obtain ⟨middle, hfirst, hrest⟩ := hreplay
    obtain ⟨htakes, rfl⟩ := replay_eq_ok_iff.1 hfirst
    have hsize : (direct.taken element).labels.size = direct.labels.size := by
      simp only [Direct.taken, LabelTable.size_placing]
      cases hplaced : element.placed? with
      | none => simp
      | some label =>
        have := hknown label (by simp [hplaced])
        simp only [Option.elim_some]
        omega
    have hmore : ∀ label ∈ more.filterMap ElementOf.placed?,
        label.index < (direct.taken element).labels.size := by
      intro label hmem
      rw [hsize]
      obtain ⟨other, hother, hplaced⟩ := List.mem_filterMap.1 hmem
      exact hknown label
        (List.mem_filterMap.2 ⟨other, List.mem_cons_of_mem _ hother, hplaced⟩)
    have hfinal := ih (h.taken htakes) hnotes.taken hmore hrest
    rw [hsize, List.append_assoc] at hfinal
    exact hfinal

end Encodes

end Direct

/-- Both terminals have taken the elements, and know the same labels and
slots. -/
structure Lockstep (elements : List Element) (direct : Direct)
    (buffered : Buffered) : Prop where
  encodes : direct.Encodes elements
  notes : direct.NotesLocals elements
  elements : buffered.elements.toList = elements
  size : direct.labels.size = buffered.labels.size
  isBound : ∀ label,
    direct.labels.isBound label = buffered.labels.isBound label
  topLocal : direct.topLocal = buffered.topLocal

/-- An element whose label is not placed yet is kept. -/
theorem Buffered.push_of_unplaced {buffered : Buffered} {element : Element}
    (h : ∀ label, element.placed? = some label →
      buffered.labels.position? label = none) :
    buffered.push element =
      (.ok (),
        { buffered with
          elements := buffered.elements.push element
          labels :=
            buffered.labels.placing element.placed? buffered.elements.size }) := by
  cases element with
  | label label =>
    have hunbound := LabelTable.isBound_eq_false_iff.2 (h label rfl)
    simp [push, hunbound, ElementOf.placed?, LabelTable.placing]
  | _ => rfl

namespace Lockstep

variable {direct final : Direct} {buffered : Buffered} {elements : List Element}
  {element : Element} {body : MethodBody}

theorem start (initial : Slot) :
    Lockstep [] (.withInitialLocals initial) (.withInitialLocals initial) where
  encodes := .start initial
  notes := by simp [Direct.NotesLocals, Direct.withInitialLocals, slotsEnd]
  elements := rfl
  size := rfl
  isBound _ := rfl
  topLocal := rfl

/-- What the direct terminal takes, the buffered one takes too. -/
theorem push (h : Lockstep elements direct buffered)
    (htakes : direct.Takes element) :
    (buffered.push element).1 = .ok () ∧
      Lockstep (elements ++ [element]) (direct.taken element)
        (buffered.push element).2 := by
  have hunplaced : ∀ label, element.placed? = some label →
      buffered.labels.position? label = none := by
    intro label hplaced
    rw [← LabelTable.isBound_eq_false_iff, ← h.isBound,
      LabelTable.isBound_eq_false_iff]
    exact htakes.unplaced label hplaced
  rw [Buffered.push_of_unplaced hunplaced]
  refine ⟨rfl, ?_⟩
  constructor
  case encodes => exact h.encodes.taken htakes
  case notes => exact h.notes.taken
  case elements => simp [h.elements]
  case size => simp only [Direct.taken, LabelTable.size_placing, h.size]
  case isBound =>
    intro label
    simp only [Direct.taken, LabelTable.isBound_placing htakes.unplaced,
      LabelTable.isBound_placing hunplaced, h.isBound]
  case topLocal => exact h.topLocal

theorem freshLabel (h : Lockstep elements direct buffered) :
    direct.freshLabel.1 = buffered.freshLabel.1 ∧
      Lockstep elements direct.freshLabel.2 buffered.freshLabel.2 := by
  refine ⟨by simp [Direct.freshLabel, Buffered.freshLabel, LabelTable.fresh, h.size], ?_⟩
  constructor
  case encodes => exact h.encodes.freshLabel
  case notes => exact h.notes
  case elements => exact h.elements
  case size =>
    simp only [Direct.freshLabel, Buffered.freshLabel, LabelTable.size_fresh,
      h.size]
  case isBound =>
    intro label
    have := h.isBound label
    simpa only [Direct.freshLabel, Buffered.freshLabel, LabelTable.isBound,
      LabelTable.position?_fresh] using this
  case topLocal => exact h.topLocal

theorem allocate (h : Lockstep elements direct buffered) (kind : Kind) :
    (direct.allocate kind).1 = (buffered.allocate kind).1 ∧
      Lockstep elements (direct.allocate kind).2 (buffered.allocate kind).2 := by
  have hencodes := h.encodes.allocate kind
  have hnotes := h.notes.allocate kind
  simp only [Direct.allocate, Buffered.allocate, h.topLocal] at hencodes hnotes ⊢
  cases hclaim : claimSlot buffered.topLocal kind with
  | error fault => exact ⟨rfl, h⟩
  | ok top =>
    simp only [hclaim] at hencodes hnotes
    exact ⟨rfl, hencodes, hnotes, h.elements, h.size, h.isBound, rfl⟩

/-- **The terminals answer alike** as long as the direct one takes every
element. -/
theorem run {operations : List Operation} (h : Lockstep elements direct buffered)
    (hno : NoPushFails (performAll Direct.perform direct operations).1) :
    (performAll Buffered.perform buffered operations).1 =
        (performAll Direct.perform direct operations).1 ∧
      Lockstep (elements ++ pushedElements operations)
        (performAll Direct.perform direct operations).2
        (performAll Buffered.perform buffered operations).2 := by
  induction operations generalizing elements direct buffered with
  | nil => exact ⟨rfl, by simpa [pushedElements, performAll] using h⟩
  | cons operation operations ih =>
    simp only [performAll_cons] at hno ⊢
    have hrest := (noPushFails_cons.1 hno).2
    cases operation with
    | push element =>
      have hok := (noPushFails_pushed_cons.1 hno).1
      obtain ⟨htakes, hnext⟩ := Direct.push_eq_ok_iff.1 (Prod.ext hok rfl)
      obtain ⟨hkept, hlockstep⟩ := h.push htakes
      simp only [Direct.perform, Buffered.perform] at hrest ⊢
      rw [← hnext] at hlockstep
      obtain ⟨hanswers, hfinal⟩ := ih hlockstep hrest
      rw [hkept, hok, hanswers]
      exact ⟨rfl, by simpa [pushedElements] using hfinal⟩
    | freshLabel =>
      obtain ⟨hlabel, hlockstep⟩ := h.freshLabel
      obtain ⟨hanswers, hfinal⟩ := ih hlockstep hrest
      simp only [Direct.perform, Buffered.perform] at hanswers ⊢
      rw [hlabel, hanswers]
      exact ⟨rfl, hfinal⟩
    | allocate kind =>
      obtain ⟨hslot, hlockstep⟩ := h.allocate kind
      obtain ⟨hanswers, hfinal⟩ := ih hlockstep hrest
      simp only [Direct.perform, Buffered.perform] at hanswers ⊢
      rw [hslot, hanswers]
      exact ⟨rfl, hfinal⟩

/-- The replay starts with nothing encoded. -/
theorem encodes_resume : Direct.Encodes [] buffered.resume :=
  (Direct.Encodes.start buffered.topLocal).withLabels
    (fun label => LabelTable.position?_reserve {} label _) _ _

/-- The replay makes the body that the direct terminal makes. -/
theorem finish_replay_iff (h : Lockstep elements direct buffered)
    (hreplay : elements.foldlM Buffered.replay buffered.resume = .ok final) :
    direct.finish = .ok body ↔ final.finish = .ok body := by
  have hsize : buffered.resume.labels.size = direct.labels.size := by
    simp only [Buffered.resume, LabelTable.size_reserve, h.size]
    exact Nat.zero_max _
  have hnotes : Direct.NotesLocals [] buffered.resume := by
    simp [Direct.NotesLocals, Buffered.resume, Direct.withInitialLocals, slotsEnd]
  have hknown : ∀ label ∈ elements.filterMap ElementOf.placed?,
      label.index < buffered.resume.labels.size := by
    intro label hmem
    obtain ⟨offset, hoffset⟩ :=
      Option.isSome_iff_exists.1 (isSome_labelOffset?.2 hmem)
    rw [hsize]
    exact LabelTable.index_lt_size ((h.encodes.position? label).trans hoffset)
  obtain ⟨hencodes, hfinal, htop, hlabels⟩ :=
    encodes_resume.foldlM_replay hnotes hknown hreplay
  rw [List.nil_append] at hencodes hfinal
  refine h.encodes.finish_congr hencodes ?_ ?_
  · refine LabelTable.ext_position? (hsize.symm.trans hlabels.symm) ?_
    funext label
    rw [h.encodes.position?, hencodes.position?]
  · have hslots : final.topLocal = direct.topLocal := by
      rw [htop, h.topLocal]
      rfl
    have hdirect := h.notes
    simp only [Direct.NotesLocals, hslots] at hfinal hdirect
    simp only [Direct.neededLocals, hslots, hfinal, hdirect]

/-- Every label that an element mentions is placed when the direct terminal has
finished. -/
theorem unbound?_eq_none (h : Lockstep elements direct buffered)
    (hf : direct.finish = .ok body) : buffered.unbound? = none := by
  have hassembly := h.encodes.isTwoPassAssembly hf
  rw [Buffered.unbound?, Array.findSome?_eq_none_iff]
  intro element hmem
  rw [List.find?_eq_none]
  intro label hlabel
  rw [← Array.mem_toList_iff, h.elements] at hmem
  have hplaced := hassembly.isSome_of_mem_labels hmem hlabel
  rw [← h.encodes.position?] at hplaced
  have hbound : buffered.labels.isBound label = true := by
    rw [← h.isBound]
    exact hplaced
  simp [hbound]

end Lockstep

namespace Buffered

variable {buffered : Buffered} {body : MethodBody}

/-- What finishing the buffered terminal does. -/
theorem finish_eq_ok_iff :
    buffered.finish = .ok body ↔
      buffered.unbound? = none ∧
      ∃ final, buffered.elements.toList.foldlM replay buffered.resume = .ok final ∧
        final.finish = .ok body := by
  simp only [finish, Array.foldlM_toList]
  cases buffered.unbound? with
  | some label => simp
  | none => simp [bind_eq_ok]

/-- **When the buffered terminal refuses** an element. -/
theorem push_eq_error_iff {next : Buffered} {element : Element} {fault : Fault} :
    buffered.push element = (.error fault, next) ↔
      ∃ label, element = .label label ∧ buffered.labels.isBound label = true ∧
        fault = .labelAlreadyBound label ∧ next = buffered := by
  cases element with
  | label label =>
    by_cases hbound : buffered.labels.isBound label = true
    · have hpush : buffered.push (.label label) =
          (.error (.labelAlreadyBound label), buffered) := if_pos hbound
      rw [hpush]
      constructor
      · rintro ⟨⟩
        exact ⟨label, rfl, hbound, rfl, rfl⟩
      · rintro ⟨_, ⟨⟩, -, rfl, rfl⟩
        rfl
    · simp [push, hbound]
  | _ => simp [push]

theorem elements_push {element : Element}
    (h : (buffered.push element).1 = .ok ()) :
    (buffered.push element).2.elements = buffered.elements.push element := by
  cases element with
  | label label =>
    by_cases hbound : buffered.labels.isBound label = true
    · simp [push, hbound] at h
    · simp [push, hbound]
  | _ => rfl

/-- The buffered terminal keeps what is pushed. -/
theorem elements_run {operations : List Operation}
    (hno : NoPushFails (performAll perform buffered operations).1) :
    (performAll perform buffered operations).2.elements.toList =
      buffered.elements.toList ++ pushedElements operations := by
  induction operations generalizing buffered with
  | nil => simp [performAll, pushedElements]
  | cons operation operations ih =>
    rw [performAll_cons] at hno ⊢
    have hrest := ih (noPushFails_cons.1 hno).2
    cases operation with
    | push element =>
      have hok := (noPushFails_pushed_cons.1 hno).1
      simpa [perform, pushedElements, elements_push hok] using hrest
    | freshLabel => exact hrest
    | allocate kind =>
      have hsame : (buffered.allocate kind).2.elements = buffered.elements := by
        unfold allocate
        split <;> rfl
      simpa [perform, pushedElements, hsame] using hrest

end Buffered

/-- **Both terminals make the same body.**  A run succeeds on one of them with
given answers and a given body exactly if it does on the other. -/
theorem completes_iff (initial : Slot) (operations : List Operation)
    (outcomes : List Outcome) (body : MethodBody) :
    Direct.Completes initial operations outcomes body ↔
      Buffered.Completes initial operations outcomes body := by
  have hstart := Lockstep.start initial
  constructor
  · intro h
    obtain ⟨rfl, hno, hf⟩ := h
    obtain ⟨hanswers, hlockstep⟩ := hstart.run hno
    rw [List.nil_append] at hlockstep
    obtain ⟨final, hreplay⟩ :=
      (hstart.encodes.replay_iff Lockstep.encodes_resume).1 hno
    refine ⟨hanswers, hno, ?_⟩
    refine Buffered.finish_eq_ok_iff.2 ⟨hlockstep.unbound?_eq_none hf, final, ?_, ?_⟩
    · rw [hlockstep.elements]
      exact hreplay
    · exact (hlockstep.finish_replay_iff hreplay).1 hf
  · intro h
    obtain ⟨rfl, hno, hf⟩ := h
    obtain ⟨-, final, hreplay, hfinal⟩ := Buffered.finish_eq_ok_iff.1 hf
    have helements := Buffered.elements_run hno
    rw [helements] at hreplay
    have hdirect :=
      (hstart.encodes.replay_iff Lockstep.encodes_resume).2 ⟨final, hreplay⟩
    obtain ⟨hanswers, hlockstep⟩ := hstart.run hdirect
    exact ⟨hanswers.symm, hno, (hlockstep.finish_replay_iff hreplay).2 hfinal⟩

end JvmMethod
