import JvmMethod.Proofs.BlockStack
import JvmMethod.Proofs.HostSlots
import JvmMethod.Proofs.TerminalContents

/-!
# Where a fragment moves

All that a shift asks of a builder are slots, and it gets them in order, from the
next free slot on.  So what it makes of a fragment depends on nothing but its
table and that slot.  `Relocation` is this part of a shift on its own, as a
function.

A builder with blocks of its own hands out the same slots as the terminal would.
So on both, a shift does what the function says, as long as the terminal takes
what is pushed.

* `Relocation.elements_spec`: every slot that is handed out belongs to an element
  of the result.
* `BlockStack.run_acceptEach`, `BlockStack.exists_run_acceptEach`: feeding a
  fragment through a shift, on any stack of blocks.
-/

namespace JvmMethod

/-- A shift, and the next free slot of the builder that it works on. -/
structure Relocation where
  shift : LocalShift
  top : Slot

namespace Relocation

/-- Where a slot has moved, or moves now. -/
def slot (relocation : Relocation) (slot : Slot) (kind : Kind) :
    Except Fault (Slot × Relocation) :=
  let key := LocalShift.key relocation.shift.fixed slot kind.width
  if kind = .void then .error .voidLocal
  else if slot < relocation.shift.fixed then .ok (slot, relocation)
  else
    match relocation.shift.slots.get? key with
    | some target => .ok (target, relocation)
    | none => do
        let top ← claimSlot relocation.top kind
        let shift := relocation.shift.assign key kind.width relocation.top
        return (relocation.top, { shift, top })

/-- What becomes of an element. -/
def element (relocation : Relocation) (element : Element) :
    Except Fault (Element × Relocation) :=
  match element.localSlot? with
  | none => .ok (element, relocation)
  | some (slot, kind) => do
      let (target, relocation) ← relocation.slot slot kind
      return (element.withLocalSlot target, relocation)

/-- What becomes of the elements of a fragment. -/
def elements (relocation : Relocation) :
    List Element → Except Fault (List Element × Relocation)
  | [] => .ok ([], relocation)
  | first :: rest => do
      let (result, relocation) ← relocation.element first
      let (results, relocation) ← relocation.elements rest
      return (result :: results, relocation)

end Relocation

/-- The labels of the elements are below `count`. -/
def LabelsBelow (count : Nat) (elements : List Element) : Prop :=
  ∀ element ∈ elements, ∀ label ∈ element.labels, label.index < count

theorem slotsEnd_cons (element : Element) (elements : List Element) :
    slotsEnd (element :: elements) = max element.slotEnd (slotsEnd elements) := by
  have hfold (elements : List Nat) (start : Nat) :
      elements.foldl max start = max start (elements.foldl max 0) := by
    induction elements generalizing start with
    | nil => simp
    | cons first rest ih =>
      rw [List.foldl_cons, List.foldl_cons, ih, ih (max 0 first)]
      omega
  rw [slotsEnd, List.map_cons, List.foldl_cons, hfold, Nat.zero_max]
  rfl

theorem ElementOf.labels_withLocalSlot {ℓ : Type} (element : ElementOf ℓ) (slot : Slot) :
    (element.withLocalSlot slot).labels = element.labels := by
  cases element <;> rfl

namespace Relocation

variable {relocation next : Relocation} {element result : Element} {kind : Kind}
  {fragment moved : List Element} {slot target : Slot}

/-- A slot that is new is the next free one. -/
theorem slot_cases (h : relocation.slot slot kind = .ok (target, next)) :
    next = relocation ∨
      target = relocation.top ∧ claimSlot relocation.top kind = .ok next.top := by
  unfold Relocation.slot at h
  by_cases hvoid : kind = .void
  · simp [hvoid] at h
  rw [if_neg hvoid] at h
  by_cases hfixed : slot < relocation.shift.fixed
  · rw [if_pos hfixed] at h
    cases h
    exact .inl rfl
  rw [if_neg hfixed] at h
  split at h
  · cases h
    exact .inl rfl
  · obtain ⟨top, hclaim, hresult⟩ := bind_eq_ok.1 h
    cases hresult
    exact .inr ⟨rfl, hclaim⟩

/-- What is said of a list of elements that come out of a relocation: slots were
handed out upwards, and the last of them is the end of an element. -/
structure Moves (relocation : Relocation) (moved : List Element) (next : Relocation) :
    Prop where
  top_le : relocation.top.toNat ≤ next.top.toNat
  le_slotsEnd : next.top.toNat ≤ max relocation.top.toNat (slotsEnd moved)

theorem element_spec (h : relocation.element element = .ok (result, next)) :
    relocation.Moves [result] next ∧ result.labels = element.labels := by
  unfold Relocation.element at h
  cases hslot : element.localSlot? with
  | none =>
    rw [hslot] at h
    cases h
    exact ⟨⟨Nat.le_refl _, Nat.le_max_left _ _⟩, rfl⟩
  | some place =>
    obtain ⟨slot, kind⟩ := place
    rw [hslot] at h
    obtain ⟨⟨target, after⟩, hmove, hresult⟩ := bind_eq_ok.1 h
    cases hresult
    refine ⟨?_, element.labels_withLocalSlot target⟩
    rcases slot_cases hmove with rfl | ⟨rfl, hclaim⟩
    · exact ⟨Nat.le_refl _, Nat.le_max_left _ _⟩
    · have htop := toNat_of_claimSlot hclaim
      have hend : (element.withLocalSlot relocation.top).slotEnd =
          relocation.top.toNat + kind.width := by
        rw [ElementOf.slotEnd, ElementOf.localSlot?_withLocalSlot hslot]
      refine ⟨by omega, ?_⟩
      rw [slotsEnd_cons, hend]
      omega

/-- **Every slot that is handed out belongs to an element**, and the labels stay
what they are. -/
theorem elements_spec {count : Nat} (hbelow : LabelsBelow count fragment)
    (h : relocation.elements fragment = .ok (moved, next)) :
    relocation.Moves moved next ∧ LabelsBelow count moved := by
  induction fragment generalizing relocation moved with
  | nil =>
    cases h
    exact ⟨⟨Nat.le_refl _, Nat.le_max_left _ _⟩, hbelow⟩
  | cons first rest ih =>
    obtain ⟨⟨result, middle⟩, hfirst, hrest⟩ := bind_eq_ok.1 h
    obtain ⟨⟨results, last⟩, hothers, hresult⟩ := bind_eq_ok.1 hrest
    cases hresult
    obtain ⟨hone, hlabels⟩ := element_spec hfirst
    obtain ⟨hfirstBelow, hrestBelow⟩ := List.forall_mem_cons.1 hbelow
    obtain ⟨hmore, hmoreBelow⟩ := ih hrestBelow hothers
    refine ⟨⟨Nat.le_trans hone.top_le hmore.top_le, ?_⟩,
      List.forall_mem_cons.2 ⟨?_, hmoreBelow⟩⟩
    · have hstep := hone.le_slotsEnd
      have hrun := hmore.le_slotsEnd
      rw [slotsEnd_cons, slotsEnd, List.map_nil, List.foldl_nil] at hstep
      rw [slotsEnd_cons]
      omega
    · rwa [hlabels]

end Relocation

/-- What a block keeps until it is closed. -/
def Block.frame (block : Block) : Label × Slot :=
  (block.stopLabel, block.terminalTop)

namespace BlockStack

/-- Between the two stacks the terminal has taken the elements, and `top` has
become the next free slot. -/
structure Gets (stack : BlockStack) (elements : List Element) (top : Slot)
    (after : BlockStack) : Prop where
  topLocal : after.topLocal = top
  frames : after.blocks.map Block.frame = stack.blocks.map Block.frame
  /-- A terminal below a block hands out no slots. -/
  below : stack.blocks ≠ [] → after.terminal.topLocal = stack.terminal.topLocal
  taken : ∀ before, stack.terminal.HasTaken before →
    after.terminal.HasTaken (before ++ elements)

variable {stack middle after : BlockStack} {elements more moved : List Element}
  {element result : Element} {kind : Kind} {slot target top : Slot} {fault : Fault}
  {shift later : LocalShift} {next : Relocation} {terminal : Terminal}

theorem Gets.refl (stack : BlockStack) : stack.Gets [] stack.topLocal stack where
  topLocal := rfl
  frames := rfl
  below _ := rfl
  taken before h := by rwa [List.append_nil]

theorem Gets.trans {last : Slot} (h : stack.Gets elements top middle)
    (hmore : middle.Gets more last after) : stack.Gets (elements ++ more) last after where
  topLocal := hmore.topLocal
  frames := hmore.frames.trans h.frames
  below hblocks := by
    have hmiddle : middle.blocks ≠ [] := by
      intro hnone
      have hframes := h.frames
      rw [hnone, List.map_nil, eq_comm, List.map_eq_nil_iff] at hframes
      exact hblocks hframes
    rw [hmore.below hmiddle, h.below hblocks]
  taken before htaken := by
    rw [← List.append_assoc]
    exact hmore.taken _ (h.taken before htaken)

theorem Gets.push (hpush : stack.terminal.push element = (.ok (), terminal)) :
    stack.Gets [element] stack.topLocal (stack.noting element terminal) where
  topLocal := by
    have htop := stack.terminal.topLocal_push element
    rw [hpush] at htop
    obtain ⟨blocks, bottom⟩ := stack
    cases blocks with
    | nil => exact htop
    | cons block blocks => rfl
  frames := by
    rw [noting, List.map_map]
    rfl
  below _ := by
    have htop := stack.terminal.topLocal_push element
    rwa [hpush] at htop
  taken before h := h.push hpush

/-- A stack that has no slot to hand out stays as it is. -/
theorem answer_allocate_error (h : claimSlot stack.topLocal kind = .error fault) :
    stack.answer (.allocate kind) = (.error fault, stack) := by
  obtain ⟨blocks, terminal⟩ := stack
  cases blocks with
  | nil => simp only [answer, terminal.allocate_of_error h]
  | cons block blocks =>
    have hclaim : claimSlot block.topLocal kind = .error fault := h
    simp only [answer, Block.allocate, hclaim]

/-- The innermost block, or else the terminal, hands out the next free slot. -/
theorem answer_allocate_ok (h : claimSlot stack.topLocal kind = .ok top) :
    ∃ after, stack.answer (.allocate kind) = (.ok stack.topLocal, after) ∧
      stack.Gets [] top after := by
  obtain ⟨blocks, terminal⟩ := stack
  cases blocks with
  | nil =>
    obtain ⟨next, hallocate, htop⟩ := terminal.allocate_of_ok h
    refine ⟨⟨[], next⟩, by simp only [answer, hallocate]; rfl, htop, rfl,
      fun hblocks => absurd rfl hblocks, ?_⟩
    intro before htaken
    have hnext := htaken.allocate kind
    rwa [hallocate, ← List.append_nil before] at hnext
  | cons block blocks =>
    have hclaim : claimSlot block.topLocal kind = .ok top := h
    refine ⟨⟨{ block with topLocal := top } :: blocks, terminal⟩, ?_, rfl, rfl,
      fun _ => rfl, ?_⟩
    · simp only [answer, Block.allocate, hclaim]
      rfl
    · intro before htaken
      rwa [List.append_nil]

/-- **One slot** is looked up as the relocation says. -/
theorem run_shift (stack : BlockStack) (shift : LocalShift) (slot : Slot)
    (kind : Kind) :
    match (Relocation.mk shift stack.topLocal).slot slot kind with
    | .error fault =>
        run (LocalShift.shift slot kind).run stack shift =
          (.error fault, stack, shift)
    | .ok (target, next) =>
        ∃ after, run (LocalShift.shift slot kind).run stack shift =
          (.ok target, after, next.shift) ∧ stack.Gets [] next.top after := by
  rw [LocalShift.run_shift]
  unfold Relocation.slot
  simp only [run]
  by_cases hvoid : kind = .void
  · simp only [if_pos hvoid, run]
  by_cases hfixed : slot < shift.fixed
  · simp only [if_neg hvoid, if_pos hfixed, run]
    exact ⟨stack, rfl, .refl stack⟩
  simp only [if_neg hvoid, if_neg hfixed]
  cases hget : shift.slots.get? (LocalShift.key shift.fixed slot kind.width) with
  | some known => exact ⟨stack, rfl, .refl stack⟩
  | none =>
    cases hclaim : claimSlot stack.topLocal kind with
    | error fault => simp only [bind, Except.bind, run, answer_allocate_error hclaim]
    | ok top =>
      obtain ⟨after, hanswer, hgets⟩ := answer_allocate_ok hclaim
      exact ⟨after, by simp only [run, hanswer], hgets⟩

/-- **One element** is taken in as the relocation says: the stack hands out a slot,
or does not, and the element is pushed. -/
theorem run_accept (stack : BlockStack) (shift : LocalShift) (element : Element) :
    match (Relocation.mk shift stack.topLocal).element element with
    | .error fault =>
        run (LocalShift.transform.accept element).run stack shift =
          (.error fault, stack, shift)
    | .ok (result, next) =>
        ∃ middle, stack.Gets [] next.top middle ∧
          run (LocalShift.transform.accept element).run stack shift =
            run (.ask (.push result) .done) middle next.shift := by
  rw [LocalShift.run_accept]
  unfold Relocation.element
  cases hslot : element.localSlot? with
  | none => exact ⟨stack, .refl stack, rfl⟩
  | some place =>
    obtain ⟨slot, kind⟩ := place
    have hshift := run_shift stack shift slot kind
    simp only [run_bind]
    rcases hmove : (Relocation.mk shift stack.topLocal).slot slot kind with
      fault | ⟨target, next⟩
    · rw [hmove] at hshift
      simp only [hshift]
      rfl
    · rw [hmove] at hshift
      obtain ⟨middle, hrun, hgets⟩ := hshift
      exact ⟨middle, hgets, by simp only [hrun]⟩

theorem run_acceptEach_cons (element : Element) (elements : List Element) :
    run (Build.acceptEach LocalShift.transform (element :: elements)).run stack shift =
      match run (LocalShift.transform.accept element).run stack shift with
      | (.ok (), middle, shift) =>
          run (Build.acceptEach LocalShift.transform elements).run middle shift
      | (.error fault, middle, shift) => (.error fault, middle, shift) := by
  rw [Build.acceptEach, Build.run_bind, run_bind]
  rcases run (LocalShift.transform.accept element).run stack shift with
    ⟨fault | ⟨⟩, middle, shift⟩ <;> rfl

theorem run_push_ok (hpush : stack.terminal.push element = (.ok (), terminal)) :
    run (.ask (.push element) .done) stack shift =
      (.ok (), stack.noting element terminal, shift) := by
  simp only [run, answer, hpush]
  rfl

/-- **A fragment that gets through** is the relocated one. -/
theorem run_acceptEach
    (h : run (Build.acceptEach LocalShift.transform elements).run stack shift =
      (.ok (), after, later)) :
    ∃ moved next, (Relocation.mk shift stack.topLocal).elements elements =
      .ok (moved, next) ∧ stack.Gets moved next.top after := by
  induction elements generalizing stack shift with
  | nil =>
    cases h
    exact ⟨[], _, rfl, .refl _⟩
  | cons element elements ih =>
    rw [run_acceptEach_cons] at h
    have haccept := run_accept stack shift element
    rcases hone : (Relocation.mk shift stack.topLocal).element element with
      fault | ⟨result, next⟩
    · rw [hone] at haccept
      rw [haccept] at h
      cases h
    · rw [hone] at haccept
      obtain ⟨middle, hslot, hrun⟩ := haccept
      rw [hrun] at h
      rcases hpush : middle.terminal.push result with ⟨fault | ⟨⟩, terminal⟩
      · simp only [run, answer, hpush] at h
        cases h
      · rw [run_push_ok hpush] at h
        have hgets := hslot.trans (.push hpush)
        rw [List.nil_append, hslot.topLocal] at hgets
        obtain ⟨moved, last, hrest, hmore⟩ := ih h
        refine ⟨result :: moved, last, ?_, hgets.trans hmore⟩
        rw [hgets.topLocal] at hrest
        simp only [Relocation.elements, hone, hrest, bind, Except.bind]
        rfl

/-- **A fragment gets through** if it can be relocated and what comes of it is
part of a well-formed list of elements. -/
theorem exists_run_acceptEach {before behind : List Element} {initial : Slot}
    (h : (Relocation.mk shift stack.topLocal).elements elements = .ok (moved, next))
    (htaken : stack.terminal.HasTaken before)
    (hwf : IsWellFormed initial (before ++ moved ++ behind)) :
    ∃ after later,
      run (Build.acceptEach LocalShift.transform elements).run stack shift =
        (.ok (), after, later) := by
  induction elements generalizing stack shift before moved with
  | nil => exact ⟨stack, shift, rfl⟩
  | cons element elements ih =>
    obtain ⟨⟨result, found⟩, hone, hrest⟩ := bind_eq_ok.1 h
    obtain ⟨⟨results, last⟩, hothers, hresult⟩ := bind_eq_ok.1 hrest
    cases hresult
    have haccept := run_accept stack shift element
    rw [hone] at haccept
    obtain ⟨middle, hslot, hrun⟩ := haccept
    have hmiddle := hslot.taken before htaken
    rw [List.append_nil] at hmiddle
    rw [List.append_assoc, List.cons_append] at hwf
    obtain ⟨terminal, hpush⟩ := hmiddle.exists_push hwf
    have hgets := hslot.trans (.push hpush)
    rw [List.nil_append, hslot.topLocal] at hgets
    rw [run_acceptEach_cons, hrun, run_push_ok hpush]
    -- what was pushed now stands before the rest
    apply ih
    · rw [hgets.topLocal]
      exact hothers
    · exact hgets.taken before htaken
    · rwa [List.append_assoc, List.append_assoc, List.singleton_append]

end BlockStack

end JvmMethod
