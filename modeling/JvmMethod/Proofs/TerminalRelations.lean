import JvmMethod.Proofs.ChainArrivals
import JvmMethod.Proofs.RefusedPushes
import JvmMethod.Proofs.TerminalContents

/-!
# What a terminal knows of the elements that it has received

Something that a direct terminal knows of its elements is a relation between them
and its state.  If the relation is kept by all that a direct terminal does
(`Direct.IsKept`), then it holds after every script on every chain, refused pushes
included.  A buffered terminal knows nothing but the elements, and finds out about
them when it replays them.

* `Chain.relates_run`: the relation holds of what arrives.
* `Terminal.Relates.finish_ok`, `Terminal.Relates.finish_error`: finishing either
  terminal is finishing a direct one for which the relation holds.
-/

namespace JvmMethod

variable {ω α : Type}

/-- All that a direct terminal does keeps the relation between the elements that
it has taken and its state. -/
structure Direct.IsKept (relation : List Element → Direct → Prop) : Prop where
  taken : ∀ {elements direct element}, relation elements direct →
    direct.Takes element → relation (elements ++ [element]) (direct.taken element)
  wrote : ∀ {elements direct next}, relation elements direct →
    direct.Wrote next → relation elements next
  freshLabel : ∀ {elements direct}, relation elements direct →
    relation elements direct.freshLabel.2
  allocate : ∀ {elements direct} kind, relation elements direct →
    relation elements (direct.allocate kind).2

/-- A direct terminal is related to the elements; a buffered one has kept them. -/
def Terminal.Relates (relation : List Element → Direct → Prop)
    (elements : List Element) : Terminal → Prop
  | .direct state => relation elements state
  | .buffered state => state.elements.toList = elements

variable {relation : List Element → Direct → Prop} {elements more : List Element}

/-- A push, whether or not it is refused. -/
theorem Direct.IsKept.push (h : IsKept relation) {direct : Direct}
    (hstart : relation elements direct) (element : Element) :
    relation
      (elements ++ (Request.arrivals (.push element) (direct.push element).1).map
        Arrival.element)
      (direct.push element).2 := by
  rcases hpush : direct.push element with ⟨fault | ⟨⟩, next⟩
  · have hwrote := h.wrote hstart (push_error hpush)
    rwa [← List.append_nil elements] at hwrote
  · obtain ⟨htakes, rfl⟩ := push_eq_ok_iff.1 hpush
    exact h.taken hstart htakes

/-- Elements that are replayed. -/
theorem Direct.IsKept.replay (h : IsKept relation) {direct final : Direct}
    (hstart : relation elements direct)
    (hreplay : more.foldlM Buffered.replay direct = .ok final) :
    relation (elements ++ more) final := by
  induction more generalizing elements direct with
  | nil =>
    cases hreplay
    rwa [List.append_nil]
  | cons element more ih =>
    rw [List.foldlM_cons, bind_eq_ok] at hreplay
    obtain ⟨middle, hfirst, hrest⟩ := hreplay
    obtain ⟨htakes, rfl⟩ := Encodes.replay_eq_ok_iff.1 hfirst
    have hfinal := ih (h.taken hstart htakes) hrest
    rwa [List.append_assoc] at hfinal

/-- A replay that fails does so at a push. -/
theorem Buffered.exists_push_of_replay_error {direct : Direct} {fault : Fault}
    (h : more.foldlM replay direct = .error fault) :
    ∃ (middle : Direct) (element : Element),
      (middle.push element).1 = .error fault := by
  induction more generalizing direct with
  | nil => cases h
  | cons element more ih =>
    rcases hpush : direct.push element with ⟨refused | ⟨⟩, next⟩
    · rw [List.foldlM_cons, replay, hpush] at h
      cases h
      exact ⟨direct, element, congrArg Prod.fst hpush⟩
    · rw [List.foldlM_cons, replay, hpush] at h
      exact ih h

namespace Terminal

variable {terminal : Terminal} {body : MethodBody} {fault : Fault}

/-- A relation that holds when nothing has been taken holds of a new terminal. -/
theorem IsNew.relates (h : terminal.IsNew)
    (hstart : ∀ initial, relation [] (.withInitialLocals initial)) :
    terminal.Relates relation [] := by
  cases terminal with
  | direct state =>
    obtain ⟨initial, rfl⟩ := h
    exact hstart initial
  | buffered state =>
    obtain ⟨initial, rfl⟩ := h
    rfl

/-- One request: the relation holds with what arrives. -/
theorem Relates.answer (h : terminal.Relates relation elements)
    (hkept : Direct.IsKept relation) (request : Request) :
    (terminal.answer request).2.Relates relation
      (elements ++
        (request.arrivals (terminal.answer request).1).map Arrival.element) := by
  cases terminal with
  | buffered state =>
    obtain ⟨next, hnext, helements⟩ :=
      elements_answer request (rfl : Terminal.buffered state = .buffered state)
    rw [hnext]
    exact helements.trans (congrArg (· ++ _) h)
  | direct state =>
    have hstate : relation (elements ++ []) state := by rwa [List.append_nil]
    cases request with
    | push element => exact hkept.push h element
    | terminalPush element =>
      have hpush := hkept.push h element
      simp only [Terminal.answer, Terminal.push]
      cases hanswer : (state.push element).1 <;> rw [hanswer] at hpush <;>
        exact hpush
    | allocate kind | terminalAllocate kind => exact hkept.allocate kind hstate
    | freshLabel => exact hkept.freshLabel hstate
    | topLocal | terminal | layers => exact hstate

/-- The direct terminal that is finished in the end. -/
theorem Relates.finish_ok (h : terminal.Relates relation elements)
    (hkept : Direct.IsKept relation)
    (hresume : ∀ buffered : Buffered, relation [] buffered.resume)
    (hfinish : terminal.finish = .ok body) :
    ∃ final : Direct, relation elements final ∧
      final.topLocal = terminal.topLocal ∧ final.finish = .ok body := by
  cases terminal with
  | direct state => exact ⟨state, h, rfl, hfinish⟩
  | buffered state =>
    obtain ⟨-, final, hreplay, hfinal⟩ := Buffered.finish_eq_ok_iff.1 hfinish
    have hend := hkept.replay (hresume state) hreplay
    have htop := ((Direct.HasTaken.resume state).replay hreplay).topLocal
    rw [List.nil_append, show state.elements.toList = elements from h] at hend
    exact ⟨final, hend, htop, hfinal⟩

/-- Finishing fails since a label is not placed, since an element is refused that
was kept until then, or as it does for a direct terminal. -/
theorem Relates.finish_error (h : terminal.Relates relation elements)
    (hkept : Direct.IsKept relation)
    (hresume : ∀ buffered : Buffered, relation [] buffered.resume)
    (hfinish : terminal.finish = .error fault) :
    (∃ label, fault = .unboundLabel label) ∨
      (∃ (middle : Direct) (element : Element),
        (middle.push element).1 = .error fault) ∨
      ∃ final : Direct, relation elements final ∧ final.finish = .error fault := by
  cases terminal with
  | direct state => exact .inr (.inr ⟨state, h, hfinish⟩)
  | buffered state =>
    simp only [finish, Buffered.finish, ← Array.foldlM_toList] at hfinish
    cases hunbound : state.unbound? with
    | some label =>
      rw [hunbound] at hfinish
      cases hfinish
      exact .inl ⟨label, rfl⟩
    | none =>
      rw [hunbound] at hfinish
      cases hreplay : state.elements.toList.foldlM Buffered.replay state.resume with
      | error refused =>
        rw [hreplay] at hfinish
        cases hfinish
        exact .inr (.inl (Buffered.exists_push_of_replay_error hreplay))
      | ok final =>
        rw [hreplay] at hfinish
        have hend := hkept.replay (hresume state) hreplay
        rw [List.nil_append, show state.elements.toList = elements from h] at hend
        exact .inr (.inr ⟨final, hend, hfinish⟩)

end Terminal

namespace Chain

/-- **Whatever is done with a chain**, the relation holds of its terminal and all
that the terminal has received. -/
theorem relates_run (chain : Chain ω) (script : Script ω α) (ambient : ω)
    (hkept : Direct.IsKept relation) (h : chain.bottom.Relates relation elements) :
    (chain.run script ambient).2.1.bottom.Relates relation
      (elements ++ chain.emitted script ambient) := by
  refine run_induction (motive := fun before came after => ∀ elements,
    before.Relates relation elements →
      after.Relates relation (elements ++ came.map Arrival.element))
    ?_ ?_ chain script ambient elements h
  · intro terminal elements hstart
    simpa using hstart
  · intro terminal request came after hrest elements hstart
    have hfinal := hrest _ (hstart.answer hkept request)
    rwa [List.append_assoc, ← List.map_append] at hfinal

end Chain

end JvmMethod
