import JvmMethod.Element

/-!
# Elements with other labels

`ElementOf.map` replaces the labels of an element, and `ElementOf.computational`
the kinds of its typed instructions by those that instructions know.  Neither
touches what the other does, and an element depends on a map of labels only
through the labels that it mentions.
-/

namespace JvmMethod

variable {ℓ ℓ' ℓ'' : Type}

namespace Branch

/-- Replaces every target. -/
def map (f : ℓ → ℓ') : Branch ℓ → Branch ℓ'
  | .test condition target => .test condition (f target)
  | .goto target => .goto (f target)
  | .tableSwitch default low targets =>
      .tableSwitch (f default) low (targets.map f)
  | .lookupSwitch default targets =>
      .lookupSwitch (f default) (targets.map (Prod.map id f))

end Branch

namespace ElementOf

/-- Replaces every label. -/
def map (f : ℓ → ℓ') : ElementOf ℓ → ElementOf ℓ'
  | .load kind slot => .load kind slot
  | .store kind slot => .store kind slot
  | .increment slot amount => .increment slot amount
  | .constant value => .constant value
  | .operator instruction => .operator instruction
  | .branch instruction => .branch (instruction.map f)
  | .methodReturn kind => .methodReturn kind
  | .athrow => .athrow
  | .label placed => .label (f placed)
  | .line number => .line number
  | .handler ⟨tryStart, tryStop, start, class?⟩ =>
      .handler ⟨f tryStart, f tryStop, f start, class?⟩
  | .localVariable ⟨slot, name, type, start, stop⟩ =>
      .localVariable ⟨slot, name, type, f start, f stop⟩
  | .localVariableType ⟨slot, name, signature, start, stop⟩ =>
      .localVariableType ⟨slot, name, signature, f start, f stop⟩

/-- The element as it is executed: loads, stores and returns know only the
computational kinds. -/
def computational : ElementOf ℓ → ElementOf ℓ
  | .load kind slot => .load kind.computational slot
  | .store kind slot => .store kind.computational slot
  | .methodReturn kind => .methodReturn kind.computational
  | element => element

variable {element : ElementOf ℓ} {f : ℓ → ℓ'}

theorem labels_map (f : ℓ → ℓ') (element : ElementOf ℓ) :
    (element.map f).labels = element.labels.map f := by
  cases element with
  | branch instruction =>
    cases instruction with
    | test _ _ | goto _ | tableSwitch _ _ _ => rfl
    | lookupSwitch default targets =>
      simp [map, Branch.map, labels, Branch.targets, Function.comp_def]
  | _ => rfl

theorem map_map (g : ℓ' → ℓ'') (f : ℓ → ℓ') (element : ElementOf ℓ) :
    (element.map f).map g = element.map fun label => g (f label) := by
  cases element with
  | branch instruction =>
    cases instruction with
    | test _ _ | goto _ => rfl
    | tableSwitch _ _ _ | lookupSwitch _ _ =>
      simp [map, Branch.map, Function.comp_def]
  | _ => rfl

/-- Only the labels that the element mentions matter. -/
theorem map_congr {g : ℓ → ℓ'} (h : ∀ label ∈ element.labels, f label = g label) :
    element.map f = element.map g := by
  cases element with
  | branch instruction =>
    cases instruction with
    | test _ _ | goto _ =>
      simp only [labels, Branch.targets, List.mem_singleton, forall_eq] at h
      simp only [map, Branch.map, h]
    | tableSwitch default low targets =>
      simp only [labels, Branch.targets, List.forall_mem_cons] at h
      simp only [map, Branch.map, h.1, List.map_congr_left h.2]
    | lookupSwitch default targets =>
      simp only [labels, Branch.targets, List.forall_mem_cons,
        List.forall_mem_map] at h
      have htargets : targets.map (Prod.map id f) = targets.map (Prod.map id g) :=
        List.map_congr_left fun target hmem => Prod.ext rfl (h.2 target hmem)
      simp only [map, Branch.map, h.1, htargets]
  | label _ =>
    simp only [labels, List.mem_singleton, forall_eq] at h
    simp only [map, h]
  | handler _ | localVariable _ | localVariableType _ =>
    simp only [labels, List.forall_mem_cons] at h
    simp only [map, h]
  | _ => rfl

theorem map_id (element : ElementOf ℓ) : element.map id = element := by
  cases element with
  | branch instruction => cases instruction <;> simp [map, Branch.map]
  | _ => rfl

theorem computational_map (f : ℓ → ℓ') (element : ElementOf ℓ) :
    (element.map f).computational = element.computational.map f := by
  cases element <;> rfl

theorem labels_computational (element : ElementOf ℓ) :
    element.computational.labels = element.labels := by
  cases element <;> rfl

end ElementOf

end JvmMethod
