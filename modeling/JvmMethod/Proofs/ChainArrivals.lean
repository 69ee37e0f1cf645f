import JvmMethod.Proofs.ChainRequests

/-!
# What arrives from a chain

Whatever stands over a terminal, the terminal sees requests, and answers them one
after the other.  So what is kept by every single request is kept by every script
on every chain (`Chain.run_induction`).

* `Chain.arrivals_bind`, `Chain.arrivals_past`: what arrives from one script
  after the other, and from a request that goes past all layers.
* `Chain.grows_run`: of what arrives, no two elements place the same label.
* `Chain.elements_run`: a buffered terminal keeps what arrives.
-/

namespace JvmMethod

variable {ω α β : Type}

/-- Nothing has been done with the terminal but to take its first slots. -/
def Terminal.IsNew : Terminal → Prop
  | .direct state => ∃ initial, state = .withInitialLocals initial
  | .buffered state => ∃ initial, state = .withInitialLocals initial

/-- Without blocks, the terminal answers. -/
theorem BlockStack.answer_nil (terminal : Terminal) (request : Request) :
    answer ⟨[], terminal⟩ request =
      ((terminal.answer request).1, ⟨[], (terminal.answer request).2⟩) := by
  cases request <;> rfl

namespace Terminal

/-- One request places the labels that arrive with it. -/
theorem grows_answer (terminal : Terminal) (request : Request) :
    terminal.labels.Grows
      (placedLabels (request.arrivals (terminal.answer request).1))
      (terminal.answer request).2.labels := by
  simpa only [BlockStack.answer_nil] using
    BlockStack.grows_answer ⟨[], terminal⟩ request

/-- A buffered terminal keeps what arrives with a request. -/
theorem elements_answer {terminal : Terminal} {buffered : Buffered}
    (request : Request) (h : terminal = .buffered buffered) :
    ∃ next, (terminal.answer request).2 = .buffered next ∧
      next.elements.toList = buffered.elements.toList ++
        (request.arrivals (terminal.answer request).1).map Arrival.element := by
  have hstack : (⟨[], terminal⟩ : BlockStack).terminal = .buffered buffered := h
  simpa only [BlockStack.answer_nil] using
    BlockStack.elements_answer request hstack

end Terminal

namespace Script

theorem arrivals_bind (script : Script ω α) (next : α → Script ω β)
    (terminal : Terminal) (ambient : ω) :
    (script.bind next).arrivals terminal ambient =
      script.arrivals terminal ambient ++
        (next (script.run terminal ambient).1).arrivals
          (script.run terminal ambient).2.1 (script.run terminal ambient).2.2 := by
  induction script generalizing terminal ambient with
  | done => rfl
  | ask _ _ ih => simp only [Script.bind, arrivals, run, ih, List.append_assoc]
  | read _ ih => exact ih _ _ _
  | change _ _ ih => exact ih _ _

variable {motive : Terminal → List Arrival → Terminal → Prop}

/-- What goes through every request goes through every script. -/
theorem run_induction (hrefl : ∀ terminal, motive terminal [] terminal)
    (hstep : ∀ terminal request came after,
      motive (terminal.answer request).2 came after →
      motive terminal (request.arrivals (terminal.answer request).1 ++ came) after)
    (script : Script ω α) (terminal : Terminal) (ambient : ω) :
    motive terminal (script.arrivals terminal ambient)
      (script.run terminal ambient).2.1 := by
  induction script generalizing terminal ambient with
  | done => exact hrefl terminal
  | ask request next ih => exact hstep terminal request _ _ (ih _ _ _)
  | read _ ih => exact ih _ _ _
  | change _ _ ih => exact ih _ _

end Script

namespace Chain

/-- **Induction over a run.**  A relation between the terminal, what arrives, and
the terminal afterwards holds of a script on a chain as soon as it goes through
every request. -/
theorem run_induction {motive : Terminal → List Arrival → Terminal → Prop}
    (hrefl : ∀ terminal, motive terminal [] terminal)
    (hstep : ∀ terminal request came after,
      motive (terminal.answer request).2 came after →
      motive terminal (request.arrivals (terminal.answer request).1 ++ came) after)
    (chain : Chain ω) (script : Script ω α) (ambient : ω) :
    motive chain.bottom (chain.arrivals script ambient)
      (chain.run script ambient).2.1.bottom := by
  induction chain generalizing α with
  | terminal state => exact script.run_induction hrefl hstep state ambient
  | block opened below ih => exact ih (script.inBlock opened)
  | transform layer stage below ih => exact ih _

variable (chain : Chain ω) (ambient : ω)

/-- **Labels are placed once**, whatever the transforms of the chain do. -/
theorem grows_run (script : Script ω α) :
    chain.bottom.labels.Grows (placedLabels (chain.arrivals script ambient))
      (chain.run script ambient).2.1.bottom.labels := by
  refine run_induction (motive := fun before came after =>
    before.labels.Grows (placedLabels came) after.labels)
    ?_ ?_ chain script ambient
  · exact fun terminal => .of_eq rfl
  · intro terminal request came after hrest
    have happend := (terminal.grows_answer request).append hrest
    simpa only [placedLabels, List.filterMap_append] using happend

/-- **A buffered terminal keeps what arrives**, and nothing else. -/
theorem elements_run (script : Script ω α) {buffered : Buffered}
    (h : chain.bottom = .buffered buffered) :
    ∃ final, (chain.run script ambient).2.1.bottom = .buffered final ∧
      final.elements.toList =
        buffered.elements.toList ++ chain.emitted script ambient := by
  refine run_induction (motive := fun before came after => ∀ buffered,
    before = .buffered buffered → ∃ final, after = .buffered final ∧
      final.elements.toList =
        buffered.elements.toList ++ came.map Arrival.element)
    ?_ ?_ chain script ambient buffered h
  · exact fun terminal buffered hstart => ⟨buffered, hstart, by simp⟩
  · intro terminal request came after hrest buffered hstart
    obtain ⟨next, hnext, hone⟩ := Terminal.elements_answer request hstart
    obtain ⟨final, hfinal, hlast⟩ := hrest next hnext
    exact ⟨final, hfinal, by rw [hlast, hone, List.map_append, List.append_assoc]⟩

theorem arrivals_bind (script : Script ω α) (next : α → Script ω β) :
    chain.arrivals (script.bind next) ambient =
      chain.arrivals script ambient ++
        (chain.run script ambient).2.1.arrivals
          (next (chain.run script ambient).1) (chain.run script ambient).2.2 := by
  induction chain generalizing α β with
  | terminal state => simp only [arrivals, run, Script.arrivals_bind]
  | block opened below ih => simp only [arrivals, run, Script.inBlock_bind, ih]
  | transform layer stage below ih =>
    simp only [arrivals, run, Script.through_bind, ih]

@[simp] theorem arrivals_done (result : α) :
    chain.arrivals (.done result) ambient = [] := by
  induction chain generalizing α with
  | terminal state => rfl
  | block opened below ih => exact ih _
  | transform layer stage below ih => exact ih _

/-- What arrives with a request that goes past all layers, and after it. -/
theorem arrivals_past {request : Request} (h : request.IsPast)
    (next : request.Answer → Script ω α) :
    chain.arrivals (.ask request next) ambient =
      request.arrivals (chain.bottom.answer request).1 ++
        (chain.withBottom (chain.bottom.answer request).2).arrivals
          (next (chain.bottom.answer request).1) ambient := by
  induction chain generalizing α with
  | terminal state => rfl
  | block opened below ih =>
    cases request with
    | push _ | allocate _ | topLocal | layers => cases h
    | _ => exact ih _
  | transform layer stage below ih =>
    cases request with
    | push _ | allocate _ | topLocal | layers => cases h
    | _ => exact ih _

/-- Nothing arrives when a chain is asked for its next free slot. -/
theorem arrivals_ask_topLocal (next : Slot → Script ω α) :
    chain.arrivals (.ask .topLocal next) ambient =
      chain.arrivals (next chain.topLocal) ambient := by
  induction chain generalizing α with
  | terminal state => rfl
  | block opened below ih => rfl
  | transform layer stage below ih => exact ih _

end Chain

end JvmMethod
