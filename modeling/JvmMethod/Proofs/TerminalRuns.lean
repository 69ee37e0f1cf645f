import JvmMethod.Buffered

/-!
# Runs of a terminal

A producer does three things with a terminal: it pushes elements, and asks for
labels and for local slots.  A *run* is a finite list of such operations, in any
order, together with what the terminal answered.

`Direct.run_preserves` is the induction over the runs of the direct terminal: a
relation between the elements pushed so far and the state is kept by a run as
soon as every single operation keeps it.
-/

namespace JvmMethod

/-- What a producer does with a terminal. -/
inductive Operation where
  | push (element : Element)
  | freshLabel
  | allocate (kind : Kind)

/-- How a terminal answers an operation. -/
inductive Outcome where
  | pushed (answer : Except Fault Unit)
  | label (label : Label)
  | slot (answer : Except Fault Slot)

/-- The elements that a run pushes, in order. -/
def pushedElements : List Operation → List Element
  | [] => []
  | .push element :: operations => element :: pushedElements operations
  | .freshLabel :: operations => pushedElements operations
  | .allocate _ :: operations => pushedElements operations

/-- Performs operations one after the other, whatever the answers are. -/
def performAll {σ : Type} (perform : σ → Operation → Outcome × σ) (state : σ) :
    List Operation → List Outcome × σ
  | [] => ([], state)
  | operation :: operations =>
      let first := perform state operation
      let rest := performAll perform first.2 operations
      (first.1 :: rest.1, rest.2)

/-- No push is answered with a fault. -/
def NoPushFails (outcomes : List Outcome) : Prop :=
  ∀ fault, Outcome.pushed (.error fault) ∉ outcomes

/-- Performs an operation on the direct terminal. -/
def Direct.perform (direct : Direct) : Operation → Outcome × Direct
  | .push element =>
      (.pushed (direct.push element).1, (direct.push element).2)
  | .freshLabel => (.label direct.freshLabel.1, direct.freshLabel.2)
  | .allocate kind =>
      (.slot (direct.allocate kind).1, (direct.allocate kind).2)

/-- Performs an operation on the buffered terminal. -/
def Buffered.perform (buffered : Buffered) : Operation → Outcome × Buffered
  | .push element =>
      (.pushed (buffered.push element).1, (buffered.push element).2)
  | .freshLabel => (.label buffered.freshLabel.1, buffered.freshLabel.2)
  | .allocate kind =>
      (.slot (buffered.allocate kind).1, (buffered.allocate kind).2)

/-- On a direct terminal with `initial` slots taken the run is answered with
`outcomes`, none of its pushes fails, and finishing gives `body`. -/
def Direct.Completes (initial : Slot) (operations : List Operation)
    (outcomes : List Outcome) (body : MethodBody) : Prop :=
  (performAll Direct.perform (.withInitialLocals initial) operations).1 =
      outcomes ∧
    NoPushFails outcomes ∧
    (performAll Direct.perform (.withInitialLocals initial) operations).2.finish =
      .ok body

/-- On a buffered terminal with `initial` slots taken the run is answered with
`outcomes`, none of its pushes fails, and finishing gives `body`. -/
def Buffered.Completes (initial : Slot) (operations : List Operation)
    (outcomes : List Outcome) (body : MethodBody) : Prop :=
  (performAll Buffered.perform (.withInitialLocals initial) operations).1 =
      outcomes ∧
    NoPushFails outcomes ∧
    (performAll Buffered.perform (.withInitialLocals initial)
      operations).2.finish = .ok body

section Runs

variable {σ : Type} {perform : σ → Operation → Outcome × σ} {state : σ}
  {operation : Operation} {operations : List Operation}

theorem performAll_cons :
    performAll perform state (operation :: operations) =
      ((perform state operation).1 ::
          (performAll perform (perform state operation).2 operations).1,
        (performAll perform (perform state operation).2 operations).2) :=
  rfl

/-- A run is a run after a run. -/
theorem performAll_append {first second : List Operation} :
    performAll perform state (first ++ second) =
      ((performAll perform state first).1 ++
          (performAll perform (performAll perform state first).2 second).1,
        (performAll perform (performAll perform state first).2 second).2) := by
  induction first generalizing state with
  | nil => rfl
  | cons operation first ih =>
    simp only [List.cons_append, performAll_cons, ih]

end Runs

section Answers

variable {outcome : Outcome} {outcomes : List Outcome}

theorem noPushFails_nil : NoPushFails [] := by
  simp [NoPushFails]

theorem noPushFails_cons :
    NoPushFails (outcome :: outcomes) ↔
      (∀ fault, outcome ≠ .pushed (.error fault)) ∧ NoPushFails outcomes := by
  simp only [NoPushFails, List.mem_cons, not_or]
  constructor
  · intro h
    exact ⟨fun fault same => (h fault).1 same.symm, fun fault => (h fault).2⟩
  · intro h fault
    obtain ⟨hfirst, hrest⟩ := h
    exact ⟨fun same => hfirst fault same.symm, hrest fault⟩

theorem noPushFails_append {others : List Outcome} :
    NoPushFails (outcomes ++ others) ↔
      NoPushFails outcomes ∧ NoPushFails others := by
  simp only [NoPushFails, List.mem_append, not_or, forall_and]

theorem noPushFails_pushed_cons {answer : Except Fault Unit} :
    NoPushFails (.pushed answer :: outcomes) ↔
      answer = .ok () ∧ NoPushFails outcomes := by
  rw [noPushFails_cons]
  cases answer <;> simp

end Answers

/-- **Induction over a run of the direct terminal.**  The relation is between
the elements pushed so far and the state; labels and slots may be asked for at
any moment. -/
theorem Direct.run_preserves (relation : List Element → Direct → Prop)
    (hpush : ∀ {elements direct element next}, relation elements direct →
      direct.push element = (.ok (), next) →
      relation (elements ++ [element]) next)
    (hfresh : ∀ {elements direct}, relation elements direct →
      relation elements direct.freshLabel.2)
    (hallocate : ∀ {elements direct} kind, relation elements direct →
      relation elements (direct.allocate kind).2)
    {operations : List Operation} (elements : List Element) {direct : Direct}
    (hstart : relation elements direct)
    (hno : NoPushFails (performAll Direct.perform direct operations).1) :
    relation (elements ++ pushedElements operations)
      (performAll Direct.perform direct operations).2 := by
  induction operations generalizing elements direct with
  | nil => simpa [pushedElements, performAll] using hstart
  | cons operation operations ih =>
    rw [performAll_cons] at hno ⊢
    have hrest := (noPushFails_cons.1 hno).2
    cases operation with
    | push element =>
      have hok := (noPushFails_pushed_cons.1 hno).1
      have hnext := hpush hstart (Prod.ext hok rfl)
      simpa [pushedElements, Direct.perform] using ih _ hnext hrest
    | freshLabel => exact ih _ (hfresh hstart) hrest
    | allocate kind => exact ih _ (hallocate kind hstart) hrest

end JvmMethod
