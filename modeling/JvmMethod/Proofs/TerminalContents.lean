import JvmMethod.Proofs.EmittedLabels
import JvmMethod.Proofs.WellFormedElements

/-!
# What a terminal has taken

The direct terminal has encoded the elements that it has taken, and the buffered
one has kept them.  Either way they can be told from its state, and nothing but
them, and the slots that it has handed out, decides what it will take next and
whether it can be finished.

* `Terminal.HasTaken`: the terminal has taken the elements.
* `Terminal.HasTaken.push`, `Terminal.HasTaken.exists_push`: one element more.
* `Terminal.HasTaken.exists_finish`, `Terminal.HasTaken.exists_direct`: well-formed
  elements can be finished, and what comes of it is what the direct terminal makes
  of them.
-/

namespace JvmMethod

/-- The number of slots that are taken before is small enough for any method. -/
theorem IsWellFormed.withInitial {elements : List Element} {first : Slot}
    (h : IsWellFormed first elements) (initial : Slot) :
    IsWellFormed initial elements := by
  have henough := h.enough_slots
  have hslots := initial.toNat_lt
  exact { h with enough_slots := by omega }

/-- The buffered terminal has kept the elements, and knows where their labels
are. -/
structure Buffered.Keeps (elements : List Element) (buffered : Buffered) : Prop where
  elements_eq : buffered.elements.toList = elements
  isBound_iff : ∀ label,
    buffered.labels.isBound label = true ↔ .label label ∈ elements

/-- The terminal has taken the elements. -/
def Terminal.HasTaken (elements : List Element) : Terminal → Prop
  | .direct state => state.HasTaken state.topLocal elements
  | .buffered state => state.Keeps elements

namespace Direct.HasTaken

variable {direct next : Direct} {initial : Slot} {before after : List Element}

/-- A terminal that has handed out a slot has the same elements. -/
theorem allocate (h : direct.HasTaken direct.topLocal before) (kind : Kind) :
    (direct.allocate kind).2.HasTaken (direct.allocate kind).2.topLocal before :=
  ⟨h.encodes.allocate kind, h.notes.allocate kind, rfl, h.no_void⟩

theorem freshLabel (h : direct.HasTaken initial before) :
    direct.freshLabel.2.HasTaken initial before :=
  ⟨h.encodes.freshLabel, h.notes, h.topLocal, h.no_void⟩

/-- A terminal that elements are replayed on has taken them. -/
theorem replay (h : direct.HasTaken initial before)
    (hreplay : after.foldlM Buffered.replay direct = .ok next) :
    next.HasTaken initial (before ++ after) := by
  induction after generalizing before direct with
  | nil =>
    cases hreplay
    rwa [List.append_nil]
  | cons element after ih =>
    rw [List.foldlM_cons, bind_eq_ok] at hreplay
    obtain ⟨middle, hfirst, hrest⟩ := hreplay
    obtain ⟨htakes, rfl⟩ := Encodes.replay_eq_ok_iff.1 hfirst
    have hfinal := ih (h.taken htakes) hrest
    rwa [List.append_assoc] at hfinal

/-- Well-formed elements can be replayed. -/
theorem exists_replay (h : direct.HasTaken initial before)
    (hwf : IsWellFormed initial (before ++ after)) :
    ∃ next, after.foldlM Buffered.replay direct = .ok next := by
  induction after generalizing before direct with
  | nil => exact ⟨direct, rfl⟩
  | cons element after ih =>
    have htakes := h.takes hwf
    rw [List.append_cons] at hwf
    obtain ⟨next, hrest⟩ := ih (h.taken htakes) hwf
    refine ⟨next, ?_⟩
    rw [List.foldlM_cons, bind_eq_ok]
    exact ⟨_, Encodes.replay_eq_ok_iff.2 ⟨htakes, rfl⟩, hrest⟩

theorem resume (buffered : Buffered) :
    buffered.resume.HasTaken buffered.topLocal [] where
  encodes := Lockstep.encodes_resume
  notes := by simp [NotesLocals, Buffered.resume, withInitialLocals, slotsEnd]
  topLocal := rfl
  no_void _ h := by cases h

end Direct.HasTaken

namespace Buffered.Keeps

variable {buffered : Buffered} {elements after : List Element} {element : Element}
  {initial : Slot} {body : MethodBody}

theorem start (initial : Slot) : (withInitialLocals initial).Keeps [] where
  elements_eq := rfl
  isBound_iff label := by
    have hnone : (withInitialLocals initial).labels.isBound label = false := rfl
    simp [hnone]

theorem allocate (h : buffered.Keeps elements) (kind : Kind) :
    (buffered.allocate kind).2.Keeps elements := by
  unfold Buffered.allocate
  split
  · exact h
  · exact ⟨h.elements_eq, h.isBound_iff⟩

theorem freshLabel (h : buffered.Keeps elements) :
    buffered.freshLabel.2.Keeps elements where
  elements_eq := h.elements_eq
  isBound_iff label := by
    rw [← h.isBound_iff label]
    simp only [Buffered.freshLabel, LabelTable.isBound, LabelTable.position?_fresh]

theorem unplaced (h : buffered.Keeps elements)
    (hwf : IsWellFormed initial (elements ++ element :: after)) :
    ∀ label, element.placed? = some label →
      buffered.labels.position? label = none := by
  intro label hplaced
  rw [← LabelTable.isBound_eq_false_iff, Bool.eq_false_iff]
  intro hbound
  have hearlier := mem_placed_iff.2 ((h.isBound_iff label).1 hbound)
  have honce := hwf.placed_once
  rw [List.filterMap_append, List.filterMap_cons_some hplaced] at honce
  exact (List.nodup_append.1 honce).2.2 label hearlier label List.mem_cons_self rfl

/-- One element more. -/
theorem push (h : buffered.Keeps elements)
    (hpush : (buffered.push element).1 = .ok ()) :
    (buffered.push element).2.Keeps (elements ++ [element]) := by
  have hunplaced : ∀ label, element.placed? = some label →
      buffered.labels.position? label = none := by
    intro label hplaced
    cases element with
    | label placed =>
      cases hplaced
      rw [← LabelTable.isBound_eq_false_iff, Bool.eq_false_iff]
      intro hbound
      simp [Buffered.push, hbound] at hpush
    | _ => cases hplaced
  rw [Buffered.push_of_unplaced hunplaced]
  constructor
  case elements_eq => rw [Array.toList_push, h.elements_eq]
  case isBound_iff =>
    intro label
    have hlabels := h.isBound_iff label
    rw [← mem_placed_iff] at hlabels ⊢
    rw [List.filterMap_append, List.mem_append, ← hlabels,
      LabelTable.isBound_placing hunplaced, Bool.or_eq_true, decide_eq_true_iff]
    simp

theorem unbound?_eq_none (h : buffered.Keeps elements)
    (hwf : IsWellFormed initial elements) : buffered.unbound? = none := by
  rw [Buffered.unbound?, Array.findSome?_eq_none_iff]
  intro element hmem
  rw [← Array.mem_toList_iff, h.elements_eq] at hmem
  rw [List.find?_eq_none]
  intro label hlabel
  have hbound := (h.isBound_iff label).2 (hwf.placed element hmem label hlabel)
  simp [hbound]

end Buffered.Keeps

namespace Terminal.HasTaken

variable {terminal next : Terminal} {elements after : List Element} {element : Element}
  {initial : Slot} {body : MethodBody}

theorem freshLabel (h : terminal.HasTaken elements) :
    terminal.freshLabel.2.HasTaken elements := by
  cases terminal with
  | direct state => exact Direct.HasTaken.freshLabel h
  | buffered state => exact Buffered.Keeps.freshLabel h

theorem allocate (h : terminal.HasTaken elements) (kind : Kind) :
    (terminal.allocate kind).2.HasTaken elements := by
  cases terminal with
  | direct state => exact Direct.HasTaken.allocate h kind
  | buffered state => exact Buffered.Keeps.allocate h kind

/-- One element more. -/
theorem push (h : terminal.HasTaken elements)
    (hpush : terminal.push element = (.ok (), next)) :
    next.HasTaken (elements ++ [element]) := by
  cases terminal with
  | direct state =>
    rcases htaken : state.push element with ⟨answer, after⟩
    simp only [Terminal.push, htaken] at hpush
    cases hpush
    obtain ⟨htakes, rfl⟩ := Direct.push_eq_ok_iff.1 htaken
    exact Direct.HasTaken.taken h htakes
  | buffered state =>
    rcases htaken : state.push element with ⟨answer, after⟩
    simp only [Terminal.push, htaken] at hpush
    cases hpush
    have hkeeps := Buffered.Keeps.push h (congrArg Prod.fst htaken)
    rwa [htaken] at hkeeps

/-- **The next one of well-formed elements is taken.** -/
theorem exists_push (h : terminal.HasTaken elements)
    (hwf : IsWellFormed initial (elements ++ element :: after)) :
    ∃ next, terminal.push element = (.ok (), next) := by
  cases terminal with
  | direct state =>
    have htakes := Direct.HasTaken.takes h (hwf.withInitial state.topLocal)
    have htaken := Direct.push_eq_ok_iff.2 ⟨htakes, rfl⟩
    exact ⟨.direct (state.taken element), by simp only [Terminal.push, htaken]⟩
  | buffered state =>
    have hkept := Buffered.push_of_unplaced (Buffered.Keeps.unplaced h hwf)
    exact ⟨.buffered (state.push element).2, by simp only [Terminal.push, hkept]⟩

/-- **What is finished** is what the direct terminal makes of the elements. -/
theorem exists_direct (h : terminal.HasTaken elements)
    (hf : terminal.finish = .ok body) :
    ∃ direct : Direct, direct.HasTaken terminal.topLocal elements ∧
      direct.finish = .ok body := by
  cases terminal with
  | direct state => exact ⟨state, h, hf⟩
  | buffered state =>
    obtain ⟨-, final, hreplay, hfinal⟩ := Buffered.finish_eq_ok_iff.1 hf
    rw [Buffered.Keeps.elements_eq h] at hreplay
    exact ⟨final, (Direct.HasTaken.resume state).replay hreplay, hfinal⟩

/-- **Well-formed elements can be finished.** -/
theorem exists_finish (h : terminal.HasTaken elements)
    (hwf : IsWellFormed initial elements) : ∃ body, terminal.finish = .ok body := by
  have hwf := hwf.withInitial terminal.topLocal
  cases terminal with
  | direct state => exact Direct.HasTaken.exists_finish h hwf
  | buffered state =>
    have hresume := Direct.HasTaken.resume state
    obtain ⟨final, hreplay⟩ := hresume.exists_replay hwf
    obtain ⟨body, hf⟩ := (hresume.replay hreplay).exists_finish hwf
    refine ⟨body, Buffered.finish_eq_ok_iff.2
      ⟨Buffered.Keeps.unbound?_eq_none h hwf, final, ?_, hf⟩⟩
    rwa [Buffered.Keeps.elements_eq h]

/-- Elements that can be finished are well-formed. -/
theorem isWellFormed (h : terminal.HasTaken elements)
    (hf : terminal.finish = .ok body) : IsWellFormed terminal.topLocal elements := by
  obtain ⟨direct, htaken, hdirect⟩ := h.exists_direct hf
  exact htaken.isWellFormed hdirect

end Terminal.HasTaken

end JvmMethod
