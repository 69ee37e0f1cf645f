import JvmMethod.Proofs.ChainArrivals
import JvmMethod.Proofs.RefusalsInBlocks
import JvmMethod.Proofs.TerminalContents

/-!
# What a run leaves behind where elements were refused

A producer may go on after an element was refused.  If it was refused before
anything was written, this does no harm: the terminal has taken the elements that
it has accepted, as if no other had come.  A branch that is refused for its offset
is the one thing that does harm.

* `Chain.refusals`: why the terminal of a chain refuses elements while a script is
  run.
* `Chain.hasTaken_run`: unless an offset was too far away, the terminal has taken
  what has arrived, and nothing else.
-/

namespace JvmMethod

variable {ω α : Type}

/-- Why the terminal refuses an element that comes with a request, by how it
answers. -/
def Request.refusals : (request : Request) → request.Answer → List Fault
  | .push _, .error fault => [fault]
  | .terminalPush _, .error fault => [fault]
  | _, _ => []

/-- Why the terminal refuses elements while a script is run. -/
def Script.refusals : Script ω α → Terminal → ω → List Fault
  | .done _, _, _ => []
  | .ask request next, terminal, ambient =>
      let (answer, terminal) := terminal.answer request
      request.refusals answer ++ (next answer).refusals terminal ambient
  | .read next, terminal, ambient => (next ambient).refusals terminal ambient
  | .change f next, terminal, ambient => next.refusals terminal (f ambient)

/-- Why the terminal of a chain refuses elements while a script is run on the
chain. -/
def Chain.refusals : Chain ω → {α : Type} → Script ω α → ω → List Fault
  | .terminal state, _, script, ambient => script.refusals state ambient
  | .block opened below, _, script, ambient =>
      below.refusals (script.inBlock opened) ambient
  | .transform layer stage below, _, script, ambient =>
      below.refusals
        (script.through layer fun element => (stage.accept element).run) ambient

/-- None of the reasons is that a label is too far away. -/
def NoneTooFar (refused : List Fault) : Prop :=
  ∀ label offset, .branchOffsetOverflow label offset ∉ refused

theorem noneTooFar_append {refused more : List Fault} :
    NoneTooFar (refused ++ more) ↔ NoneTooFar refused ∧ NoneTooFar more := by
  simp only [NoneTooFar, List.mem_append, not_or, forall_and]

namespace Terminal

variable {terminal next : Terminal} {elements : List Element}

/-- An element that is refused, but not for its offset, leaves nothing. -/
theorem eq_of_push_error {element : Element} {fault : Fault}
    (h : terminal.push element = (.error fault, next)) (hnear : NoneTooFar [fault]) :
    next = terminal := by
  cases terminal with
  | direct state =>
    rcases hpush : state.push element with ⟨answer, after⟩
    simp only [push, hpush] at h
    cases h
    cases Direct.push_eq_error_iff.1 hpush with
    | voidLocal _ | labelAlreadyBound _ | invalidSwitch _ => rfl
    | farTest _ | farGoto _ => exact absurd List.mem_cons_self (hnear _ _)
  | buffered state =>
    rcases hpush : state.push element with ⟨answer, after⟩
    simp only [push, hpush] at h
    cases h
    obtain ⟨-, -, -, -, rfl⟩ := Buffered.push_eq_error_iff.1 hpush
    rfl

/-- One push: what arrives is taken. -/
theorem HasTaken.push_answer (h : terminal.HasTaken elements) (element : Element)
    (hnear : NoneTooFar (Request.refusals (.push element) (terminal.push element).1)) :
    (terminal.push element).2.HasTaken
      (elements ++
        (Request.arrivals (.push element) (terminal.push element).1).map
          Arrival.element) := by
  rcases hpush : terminal.push element with ⟨fault | ⟨⟩, next⟩
  · rw [hpush] at hnear
    obtain rfl := eq_of_push_error hpush hnear
    simpa [Request.arrivals] using h
  · exact h.push hpush

/-- One request: what arrives is taken. -/
theorem HasTaken.answer (h : terminal.HasTaken elements) (request : Request)
    (hnear : NoneTooFar (request.refusals (terminal.answer request).1)) :
    (terminal.answer request).2.HasTaken
      (elements ++
        (request.arrivals (terminal.answer request).1).map Arrival.element) := by
  have hsame : terminal.HasTaken (elements ++ []) := by rwa [List.append_nil]
  cases request with
  | push element => exact h.push_answer element hnear
  | terminalPush element =>
    have hpush := h.push_answer element
    simp only [Terminal.answer] at hnear ⊢
    cases hanswer : (terminal.push element).1 <;> rw [hanswer] at hpush hnear <;>
      exact hpush hnear
  | allocate kind | terminalAllocate kind => exact hsame.allocate kind
  | freshLabel => exact hsame.freshLabel
  | topLocal | terminal | layers => exact hsame

/-- A new terminal has taken nothing. -/
theorem IsNew.hasTaken (h : terminal.IsNew) : terminal.HasTaken [] := by
  cases terminal with
  | direct state =>
    obtain ⟨initial, rfl⟩ := h
    exact Direct.HasTaken.start initial
  | buffered state =>
    obtain ⟨initial, rfl⟩ := h
    exact Buffered.Keeps.start initial

end Terminal

/-- What arrives while a script is run is taken. -/
theorem Script.hasTaken_run (script : Script ω α) {terminal : Terminal}
    {elements : List Element} (h : terminal.HasTaken elements) (ambient : ω)
    (hnear : NoneTooFar (script.refusals terminal ambient)) :
    (script.run terminal ambient).2.1.HasTaken
      (elements ++ (script.arrivals terminal ambient).map Arrival.element) := by
  induction script generalizing terminal elements ambient with
  | done => simpa [arrivals, run] using h
  | ask request next ih =>
    obtain ⟨hfirst, hrest⟩ := noneTooFar_append.1 hnear
    have hfinal := ih _ (h.answer request hfirst) ambient hrest
    rw [List.append_assoc, ← List.map_append] at hfinal
    exact hfinal
  | read _ ih => exact ih ambient h ambient hnear
  | change f _ ih => exact ih h (f ambient) hnear

/-- **What arrives while a script is run on a chain is taken**, and what is
refused leaves nothing, unless a label was too far away. -/
theorem Chain.hasTaken_run (chain : Chain ω) (script : Script ω α) (ambient : ω)
    {elements : List Element} (h : chain.bottom.HasTaken elements)
    (hnear : NoneTooFar (chain.refusals script ambient)) :
    (chain.run script ambient).2.1.bottom.HasTaken
      (elements ++ chain.emitted script ambient) := by
  induction chain generalizing α with
  | terminal state => exact script.hasTaken_run h ambient hnear
  | block opened below ih => exact ih (script.inBlock opened) h hnear
  | transform layer stage below ih => exact ih _ h hnear

end JvmMethod
