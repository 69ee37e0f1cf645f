import JvmMethod.Command.Injection
import JvmMethod.Proofs.AssemblyRoundTrip
import JvmMethod.Proofs.BlockInjection

/-!
# The method that a fragment is put into

The locals of the host come first, and then the fragment, maybe inside a block.
With a block the terminal does not hand out the slots of the fragment; but each of
them is the slot of an element, and so the method needs it anyway.  So the method
is the same, and so are the lines that are shown for it.

* `Settings.exists_body_iff`, `Settings.body_agrees`: when the method can be
  finished, and what comes of it, in terms that do not mention the block.
* `Settings.prints_iff_body`: the lines that are shown, in terms of the body.
* `block_makes_same_method`: the main result, for elements and for a text.
-/

namespace JvmMethod

/-- The next free slot once a number of `int` locals have been allocated. -/
def claimInts : Nat → Slot → Except Fault Slot
  | 0, top => .ok top
  | count + 1, top => do
      let top ← claimSlot top .int
      claimInts count top

namespace BlockStack

variable {ω : Type} {stack : BlockStack} {ambient : ω}

theorem run_allocateInts_succ (count : Nat) :
    run (allocateInts (count + 1)).run stack ambient =
      match stack.answer (.allocate .int) with
      | (.ok _, after) => run (allocateInts count).run after ambient
      | (.error fault, after) => (.error fault, after, ambient) := by
  rw [allocateInts, Build.run_bind, run_bind]
  simp only [Build.allocate, Script.send, ExceptT.run_mk, run]
  rcases stack.answer (.allocate .int) with ⟨fault | slot, after⟩ <;> rfl

/-- Locals are allocated one behind the other, as long as there are slots. -/
theorem run_allocateInts (count : Nat) (stack : BlockStack) (ambient : ω) :
    match claimInts count stack.topLocal with
    | .error fault =>
        ∃ after, run (allocateInts count).run stack ambient =
          (.error fault, after, ambient)
    | .ok top =>
        ∃ after, run (allocateInts count).run stack ambient =
          (.ok (), after, ambient) ∧ stack.Gets [] top after := by
  induction count generalizing stack with
  | zero => exact ⟨stack, rfl, .refl stack⟩
  | succ count ih =>
    rw [run_allocateInts_succ, claimInts]
    cases hclaim : claimSlot stack.topLocal .int with
    | error fault =>
      rw [answer_allocate_error hclaim]
      exact ⟨stack, rfl⟩
    | ok next =>
      obtain ⟨middle, hanswer, hgets⟩ := answer_allocate_ok hclaim
      have hrest := ih middle
      rw [hanswer]
      rw [hgets.topLocal] at hrest
      rcases hclaims : claimInts count next with fault | top
      · rw [hclaims] at hrest
        simpa only [bind, Except.bind, hclaims] using hrest
      · rw [hclaims] at hrest
        obtain ⟨after, hrun, hmore⟩ := hrest
        simp only [bind, Except.bind, hclaims]
        exact ⟨after, hrun, hgets.trans hmore⟩

end BlockStack

namespace Settings

variable {settings : Settings} {terminal last : Terminal} {shift : LocalShift}
  {fragment moved : List Element} {next : Relocation} {initial : Slot}
  {count : Nat}

/-- What becomes of a fragment behind the locals of the host, if `top` is the next
free slot. -/
def relocated (settings : Settings) (top : Slot) (shift : LocalShift)
    (fragment : List Element) : Except Fault (List Element × Relocation) := do
  let top ← claimInts settings.hostLocals.toNat top
  Relocation.elements { shift, top } fragment

/-- The terminal once a fragment has been put into it. -/
def injected (settings : Settings) (terminal : Terminal) (shift : LocalShift)
    (fragment : List Element) : Except Fault Terminal :=
  match (settings.injection fragment).run.run terminal shift with
  | (.error fault, _, _) => .error fault
  | (.ok (), terminal, _) => .ok terminal

/-- The body that is made of a fragment, with the first `count` labels of the method
to be used in it. -/
def body (settings : Settings) (count : Nat) (fragment : List Element) :
    Except Fault MethodBody := do
  let terminal ← settings.terminal
  let shift ← LocalShift.ofMethod settings.flags settings.descriptor
  let terminal ← settings.injected (terminal.withLabels count) shift fragment
  terminal.finish

/-- Putting a fragment into a method is reported with these lines, after those of
its elements. -/
def Prints (settings : Settings) (text : String) (lines : List String) : Prop :=
  ∃ names terminal, settings.build text = .ok (names, terminal) ∧
    settings.inject text = { lines := elementLines terminal ++ lines }

theorem injection_eq (settings : Settings) (fragment : List Element) :
    settings.injection fragment =
      allocateInts settings.hostLocals.toNat >>= fun _ =>
        Build.maybeBlock settings.block
          (Build.acceptEach LocalShift.transform fragment) := by
  unfold Settings.injection
  rw [LocalShift.transformElements_transform]
  rfl

open BlockStack in
theorem injected_eq_ok_iff :
    settings.injected terminal shift fragment = .ok last ↔
      ∃ later, run (settings.injection fragment).run ⟨[], terminal⟩ shift =
        (.ok (), ⟨[], last⟩, later) := by
  rw [(run_terminal _ terminal shift).1]
  unfold injected
  rcases (settings.injection fragment).run.run terminal shift with
    ⟨fault | ⟨⟩, final, later⟩ <;> simp

open BlockStack in
/-- The terminal once the locals of the host have been allocated. -/
theorem exists_host {top : Slot} (htaken : terminal.HasTaken []) (shift : LocalShift)
    (h : claimInts count terminal.topLocal = .ok top) :
    ∃ host, run (allocateInts count).run ⟨[], terminal⟩ shift =
        (.ok (), ⟨[], host⟩, shift) ∧
      host.HasTaken [] ∧ host.topLocal = top ∧
      terminal.labels.size ≤ host.labels.size := by
  have hallocate := run_allocateInts count ⟨[], terminal⟩ shift
  have hclaim : claimInts count (topLocal ⟨[], terminal⟩) = .ok top := h
  rw [hclaim] at hallocate
  obtain ⟨after, hints, hgets⟩ := hallocate
  have hgrows := grows_run (allocateInts count).run ⟨[], terminal⟩ shift
  rw [hints] at hgrows
  obtain ⟨host, rfl, htop⟩ := hgets.exists_terminal
  exact ⟨host, hints, hgets.taken [] htaken, htop, hgrows.size_le⟩

open BlockStack in
/-- **What a terminal gets**, whether or not there is a block: the relocated
fragment, and room for all slots that were handed out. -/
theorem injected_spec (htaken : terminal.HasTaken [])
    (hbelow : LabelsBelow terminal.labels.size fragment)
    (h : settings.injected terminal shift fragment = .ok last) :
    ∃ moved next first,
      settings.relocated terminal.topLocal shift fragment = .ok (moved, next) ∧
      LabelsBelow terminal.labels.size moved ∧ terminal.labels.size ≤ first ∧
      last.HasTaken (inserted settings.block first moved) ∧
      max last.topLocal.toNat (slotsEnd moved) =
        max next.top.toNat (slotsEnd moved) := by
  obtain ⟨later, hrun⟩ := injected_eq_ok_iff.1 h
  rw [injection_eq] at hrun
  cases hclaim : claimInts settings.hostLocals.toNat terminal.topLocal with
  | error fault =>
    have hallocate := run_allocateInts settings.hostLocals.toNat ⟨[], terminal⟩ shift
    have hclaimed : claimInts settings.hostLocals.toNat (topLocal ⟨[], terminal⟩) =
        .error fault := hclaim
    rw [hclaimed] at hallocate
    obtain ⟨after, hints⟩ := hallocate
    rw [Build.run_bind, BlockStack.run_bind, hints] at hrun
    cases hrun
  | ok top =>
    obtain ⟨host, hints, hhost, htop, hsize⟩ := exists_host htaken shift hclaim
    rw [run_bind_ok hints] at hrun
    obtain ⟨moved, next, final, hmoves, hfinal, hinserted, hlast⟩ :=
      run_inserted hhost hrun
    cases hfinal
    obtain ⟨hspec, hlabels⟩ := Relocation.elements_spec hbelow hmoves
    rw [htop] at hmoves hlast hspec
    refine ⟨moved, next, host.labels.size, ?_, hlabels, hsize, hinserted, ?_⟩
    · exact bind_eq_ok.2 ⟨top, hclaim, hmoves⟩
    · -- the counter of a block is lost, but its slots are the slots of elements
      have hle := hspec.top_le
      have hend := hspec.le_slotsEnd
      rw [hlast]
      split
      · simp only at hle hend
        omega
      · rfl

open BlockStack in
theorem exists_injected (htaken : terminal.HasTaken [])
    (hbelow : LabelsBelow terminal.labels.size moved)
    (h : settings.relocated terminal.topLocal shift fragment = .ok (moved, next))
    (hwf : IsWellFormed initial moved) :
    ∃ last, settings.injected terminal shift fragment = .ok last := by
  obtain ⟨top, hclaim, hmoves⟩ := bind_eq_ok.1 h
  obtain ⟨host, hints, hhost, htop, hsize⟩ := exists_host htaken shift hclaim
  rw [← htop] at hmoves
  have hinserted : IsWellFormed initial
      (inserted settings.block host.labels.size moved) :=
    (isWellFormed_inserted_iff hbelow hsize).2 hwf
  obtain ⟨after, later, hrun⟩ := exists_run_inserted hhost hmoves hinserted
  obtain ⟨-, -, last, -, rfl, -⟩ := run_inserted hhost hrun
  refine ⟨last, injected_eq_ok_iff.2 ⟨later, ?_⟩⟩
  rw [injection_eq, run_bind_ok hints]
  exact hrun

/-- **When the method can be finished**, in terms that do not mention the block. -/
theorem exists_finish_iff (htaken : terminal.HasTaken [])
    (hbelow : LabelsBelow terminal.labels.size fragment) :
    (∃ last body, settings.injected terminal shift fragment = .ok last ∧
        last.finish = .ok body) ↔
      ∃ moved next,
        settings.relocated terminal.topLocal shift fragment = .ok (moved, next) ∧
        IsWellFormed next.top moved := by
  constructor
  · intro h
    obtain ⟨last, body, hinjected, hfinish⟩ := h
    obtain ⟨moved, next, first, hmoves, hlabels, hfirst, hinserted, -⟩ :=
      injected_spec htaken hbelow hinjected
    have hwf := hinserted.isWellFormed hfinish
    rw [isWellFormed_inserted_iff hlabels hfirst] at hwf
    exact ⟨moved, next, hmoves, hwf.withInitial next.top⟩
  · intro h
    obtain ⟨moved, next, hmoves, hwf⟩ := h
    have hlabels : LabelsBelow terminal.labels.size moved := by
      obtain ⟨top, -, helements⟩ := bind_eq_ok.1 hmoves
      exact (Relocation.elements_spec hbelow helements).2
    obtain ⟨last, hinjected⟩ := exists_injected htaken hlabels hmoves hwf
    obtain ⟨moved', next', first, hmoves', -, hfirst, hinserted, -⟩ :=
      injected_spec htaken hbelow hinjected
    rw [hmoves] at hmoves'
    cases hmoves'
    obtain ⟨body, hfinish⟩ :=
      hinserted.exists_finish ((isWellFormed_inserted_iff hlabels hfirst).2 hwf)
    exact ⟨last, body, hinjected, hfinish⟩

/-- **What is finished** does not depend on the block. -/
theorem finish_agrees {isBlock : Bool} {otherLast : Terminal} {body other : MethodBody}
    (htaken : terminal.HasTaken []) (hbelow : LabelsBelow terminal.labels.size fragment)
    (h : settings.injected terminal shift fragment = .ok last)
    (hf : last.finish = .ok body)
    (hother : { settings with block := isBlock }.injected terminal shift fragment =
      .ok otherLast)
    (hotherf : otherLast.finish = .ok other) :
    body.AgreesBelow terminal.labels.size other := by
  obtain ⟨moved, next, first, hmoves, hlabels, hfirst, hinserted, hslots⟩ :=
    injected_spec htaken hbelow h
  obtain ⟨moved', next', first', hmoves', -, hfirst', hinserted', hslots'⟩ :=
    injected_spec htaken hbelow hother
  have hsame : settings.relocated terminal.topLocal shift fragment =
      .ok (moved', next') := hmoves'
  rw [hmoves] at hsame
  cases hsame
  obtain ⟨direct, hdirect, hfinish⟩ := hinserted.exists_direct hf
  obtain ⟨direct', hdirect', hfinish'⟩ := hinserted'.exists_direct hotherf
  have halike := alikeBelow_inserted settings.block moved hfirst
  have halike' := alikeBelow_inserted isBlock moved hfirst'
  apply hdirect.agreesBelow hdirect' (halike.symm.trans halike')
    (halike.mentionsBelow hlabels.mentionsBelow) ?_ hfinish hfinish'
  rw [halike.slotsEnd_eq, halike'.slotsEnd_eq, hslots, hslots']

theorem terminal_spec (h : settings.terminal = .ok terminal) :
    terminal.HasTaken [] ∧ terminal.labels.size = 0 := by
  unfold Settings.terminal at h
  cases hslots : parameterSlots settings.flags settings.descriptor with
  | error fault =>
    simp [Direct.ofMethod, Buffered.ofMethod, hslots, Except.map] at h
  | ok initial =>
    simp only [Direct.ofMethod, Buffered.ofMethod, hslots, Except.map] at h
    split at h
    · cases h
      exact ⟨Buffered.Keeps.start initial, rfl⟩
    · cases h
      exact ⟨Direct.HasTaken.start initial, rfl⟩

/-- A new terminal with some labels has taken nothing. -/
theorem withLabels_spec (h : settings.terminal = .ok terminal) (count : Nat) :
    (terminal.withLabels count).HasTaken [] ∧
      (terminal.withLabels count).labels.size = count := by
  obtain ⟨htaken, hsize⟩ := terminal_spec h
  refine ⟨htaken.withLabels count, ?_⟩
  rw [Terminal.size_withLabels, hsize, Nat.zero_add]

theorem body_eq_ok_iff {body : MethodBody} :
    settings.body count fragment = .ok body ↔
      ∃ terminal shift last, settings.terminal = .ok terminal ∧
        LocalShift.ofMethod settings.flags settings.descriptor = .ok shift ∧
        settings.injected (terminal.withLabels count) shift fragment = .ok last ∧
        last.finish = .ok body := by
  unfold Settings.body
  simp only [bind_eq_ok]
  constructor
  · intro h
    obtain ⟨terminal, hterminal, shift, hshift, last, hinjected, hfinish⟩ := h
    exact ⟨terminal, shift, last, hterminal, hshift, hinjected, hfinish⟩
  · intro h
    obtain ⟨terminal, shift, last, hterminal, hshift, hinjected, hfinish⟩ := h
    exact ⟨terminal, hterminal, shift, hshift, last, hinjected, hfinish⟩

theorem exists_body_iff (hbelow : LabelsBelow count fragment) :
    (∃ body, settings.body count fragment = .ok body) ↔
      ∃ terminal shift moved next, settings.terminal = .ok terminal ∧
        LocalShift.ofMethod settings.flags settings.descriptor = .ok shift ∧
        settings.relocated terminal.topLocal shift fragment = .ok (moved, next) ∧
        IsWellFormed next.top moved := by
  have hfinish {terminal : Terminal} (hterminal : settings.terminal = .ok terminal)
      (shift : LocalShift) :
      (∃ last body, settings.injected (terminal.withLabels count) shift fragment =
          .ok last ∧ last.finish = .ok body) ↔
        ∃ moved next, settings.relocated terminal.topLocal shift fragment =
          .ok (moved, next) ∧ IsWellFormed next.top moved := by
    obtain ⟨htaken, hsize⟩ := withLabels_spec hterminal count
    rw [exists_finish_iff htaken (hsize.symm ▸ hbelow), Terminal.topLocal_withLabels]
  constructor
  · intro h
    obtain ⟨body, hbody⟩ := h
    obtain ⟨terminal, shift, last, hterminal, hshift, hlast⟩ := body_eq_ok_iff.1 hbody
    obtain ⟨moved, next, hmoves⟩ := (hfinish hterminal shift).1 ⟨last, body, hlast⟩
    exact ⟨terminal, shift, moved, next, hterminal, hshift, hmoves⟩
  · intro h
    obtain ⟨terminal, shift, moved, next, hterminal, hshift, hmoves⟩ := h
    obtain ⟨last, body, hlast⟩ := (hfinish hterminal shift).2 ⟨moved, next, hmoves⟩
    exact ⟨body, body_eq_ok_iff.2 ⟨terminal, shift, last, hterminal, hshift, hlast⟩⟩

theorem body_agrees {isBlock : Bool} {body other : MethodBody}
    (hbelow : LabelsBelow count fragment) (h : settings.body count fragment = .ok body)
    (hother : { settings with block := isBlock }.body count fragment = .ok other) :
    body.AgreesBelow count other := by
  obtain ⟨terminal, shift, last, hterminal, hshift, hinjected, hf⟩ := body_eq_ok_iff.1 h
  obtain ⟨terminal', shift', last', hterminal', hshift', hinjected', hf'⟩ :=
    body_eq_ok_iff.1 hother
  have hsameTerminal : settings.terminal = .ok terminal' := hterminal'
  have hsameShift : LocalShift.ofMethod settings.flags settings.descriptor =
      .ok shift' := hshift'
  rw [hterminal] at hsameTerminal
  rw [hshift] at hsameShift
  cases hsameTerminal
  cases hsameShift
  obtain ⟨htaken, hsize⟩ := withLabels_spec hterminal count
  have hagrees := finish_agrees htaken (hsize.symm ▸ hbelow) hinjected hf hinjected' hf'
  rwa [hsize] at hagrees

end Settings

/-- **What assembling a text leaves**: a terminal with some more labels, among which
are those of the elements and of the names. -/
theorem assemble_spec {terminal middle : Terminal} {text : String}
    {elements : Array Element} {names : LabelNames}
    (h : (assemble text).run terminal {} = (.ok elements, middle, names)) :
    (∃ count, middle = terminal.withLabels count) ∧
      LabelsBelow middle.labels.size elements.toList ∧
      ∀ entry ∈ names.entries.toList, entry.2.index < middle.labels.size := by
  obtain ⟨hlines, -⟩ := assemble_eq_ok_iff.1 (congrArg Prod.fst h)
  have hrun := meets_assembleLines 1 #[] hlines terminal {} fun _ hmem =>
    LabelNames.find?_meet_empty _ hmem
  have hsame := hrun.symm.trans h
  cases hsame
  rw [LabelNames.newNames_empty, Terminal.size_withLabels]
  refine ⟨⟨_, rfl⟩, ?_, ?_⟩
  · intro element hmem label hlabel
    rw [Array.toList_append, List.nil_append, List.mem_map] at hmem
    obtain ⟨named, hnamed, rfl⟩ := hmem
    rw [ElementOf.labels_map, List.mem_map] at hlabel
    obtain ⟨name, hname, rfl⟩ := hlabel
    exact labelAt_lt (List.mem_flatMap.2 ⟨named, hnamed, hname⟩)
  · intro entry hmem
    rw [LabelNames.toList_meet, LabelNames.newNames_empty, List.nil_append] at hmem
    exact (index_of_mem_numbered hmem).2

/-- Another wording of the fault does not matter to what goes well. -/
theorem mapError_bind_eq_ok {ε ε' α β : Type} {answer : Except ε α} {wording : ε → ε'}
    {next : α → Except ε' β} {result : β} :
    (answer.mapError wording >>= next) = .ok result ↔
      ∃ value, answer = .ok value ∧ next value = .ok result := by
  cases answer with
  | error fault =>
    constructor
    · intro h
      change Except.error (wording fault) = _ at h
      cases h
    · intro h
      obtain ⟨value, hvalue, -⟩ := h
      cases hvalue
  | ok value =>
    constructor
    · intro h
      exact ⟨value, rfl, h⟩
    · intro h
      obtain ⟨known, hvalue, hnext⟩ := h
      cases hvalue
      exact hnext

/-- The lines for a method name no labels but those of the names. -/
theorem bodyLines_congr {count : Nat} {names : LabelNames} {body other : MethodBody}
    (h : body.AgreesBelow count other)
    (hnames : ∀ entry ∈ names.entries.toList, entry.2.index < count) :
    bodyLines names body = bodyLines names other := by
  unfold bodyLines
  rw [h.code, h.maxLocals]
  congr 2
  apply List.map_congr_left
  intro entry hmem
  simp only [h.labelOffset? entry.2 (hnames entry hmem)]

namespace Settings

variable {settings : Settings} {text : String} {lines : List String}

/-- Putting a fragment into a method goes well if each step does. -/
theorem build_eq_ok_iff {names : LabelNames} {last : Terminal} :
    settings.build text = .ok (names, last) ↔
      ∃ terminal shift elements middle, settings.terminal = .ok terminal ∧
        LocalShift.ofMethod settings.flags settings.descriptor = .ok shift ∧
        (assemble text).run terminal {} = (.ok elements, middle, names) ∧
        settings.injected middle shift elements.toList = .ok last := by
  unfold build
  simp only [mapError_bind_eq_ok]
  constructor
  · intro h
    obtain ⟨terminal, hterminal, shift, hshift, h⟩ := h
    rcases hassemble : (assemble text).run terminal {} with
      ⟨fault | elements, middle, known⟩
    · rw [hassemble] at h
      cases h
    · rw [hassemble] at h
      rcases hrun : (settings.injection elements.toList).run.run middle shift with
        ⟨fault | ⟨⟩, final, later⟩
      · simp only [hrun] at h
        cases h
      · simp only [hrun] at h
        cases h
        refine ⟨terminal, shift, elements, middle, hterminal, hshift, hassemble, ?_⟩
        rw [injected, hrun]
  · intro h
    obtain ⟨terminal, shift, elements, middle, hterminal, hshift, hassemble,
      hinjected⟩ := h
    refine ⟨terminal, hterminal, shift, hshift, ?_⟩
    rw [hassemble]
    rw [injected] at hinjected
    rcases hrun : (settings.injection elements.toList).run.run middle shift with
      ⟨fault | ⟨⟩, final, later⟩
    · rw [hrun] at hinjected
      cases hinjected
    · rw [hrun] at hinjected
      cases hinjected
      simp only [hrun]
      rfl

theorem prints_iff : settings.Prints text lines ↔
    ∃ names last body, settings.build text = .ok (names, last) ∧
      last.finish = .ok body ∧ lines = bodyLines names body := by
  constructor
  · intro h
    obtain ⟨names, last, hbuild, hreport⟩ := h
    rw [inject, hbuild] at hreport
    cases hfinish : last.finish with
    | error fault => simp [hfinish] at hreport
    | ok body =>
      simp only [hfinish, Report.mk.injEq, List.append_cancel_left_eq,
        and_true] at hreport
      exact ⟨names, last, body, hbuild, hfinish, hreport.symm⟩
  · intro h
    obtain ⟨names, last, body, hbuild, hfinish, rfl⟩ := h
    refine ⟨names, last, hbuild, ?_⟩
    simp only [inject, hbuild, hfinish]

/-- **The lines for a method** are those of the body that is made of the assembled
fragment. -/
theorem prints_iff_body : settings.Prints text lines ↔
    ∃ terminal elements count names body, settings.terminal = .ok terminal ∧
      (assemble text).run terminal {} =
        (.ok elements, terminal.withLabels count, names) ∧
      settings.body count elements.toList = .ok body ∧
      lines = bodyLines names body := by
  rw [prints_iff]
  constructor
  · rintro ⟨names, last, body, hbuild, hfinish, hlines⟩
    obtain ⟨terminal, shift, elements, middle, hterminal, hshift, hassemble, hinjected⟩ :=
      build_eq_ok_iff.1 hbuild
    obtain ⟨⟨count, rfl⟩, -⟩ := assemble_spec hassemble
    have hbody : settings.body count elements.toList = .ok body :=
      body_eq_ok_iff.2 ⟨terminal, shift, last, hterminal, hshift, hinjected, hfinish⟩
    exact ⟨terminal, elements, count, names, body, hterminal, hassemble, hbody, hlines⟩
  · rintro ⟨terminal, elements, count, names, body, hterminal, hassemble, hbody, hlines⟩
    obtain ⟨started, shift, last, hstarted, hshift, hinjected, hfinish⟩ :=
      body_eq_ok_iff.1 hbody
    cases hterminal.symm.trans hstarted
    have hbuild : settings.build text = .ok (names, last) :=
      build_eq_ok_iff.2
        ⟨terminal, shift, elements, _, hterminal, hshift, hassemble, hinjected⟩
    exact ⟨names, last, body, hbuild, hfinish, hlines⟩

/-- Whether a method can be finished does not depend on the block. -/
theorem exists_body_withBlock {count : Nat} {fragment : List Element}
    (hbelow : LabelsBelow count fragment)
    (h : ∃ body, settings.body count fragment = .ok body) (isBlock : Bool) :
    ∃ body, { settings with block := isBlock }.body count fragment = .ok body := by
  rw [exists_body_iff hbelow] at h ⊢
  exact h

/-- The lines for a method do not depend on the block. -/
theorem Prints.withBlock (h : settings.Prints text lines) (isBlock : Bool) :
    { settings with block := isBlock }.Prints text lines := by
  obtain ⟨terminal, elements, count, names, body, hterminal, hassemble, hbody, rfl⟩ :=
    prints_iff_body.1 h
  obtain ⟨-, hbelow, hnames⟩ := assemble_spec hassemble
  rw [(withLabels_spec hterminal count).2] at hbelow hnames
  obtain ⟨other, hother⟩ := exists_body_withBlock hbelow ⟨body, hbody⟩ isBlock
  have hagrees := body_agrees hbelow hbody hother
  exact prints_iff_body.2 ⟨terminal, elements, count, names, other, hterminal, hassemble,
    hother, bodyLines_congr hagrees hnames⟩

end Settings

/-- **A block makes the same method.**  If the labels of a fragment were all handed
out before it is put into a method, then the method can be finished with a block
around the fragment if it can be finished without, and there is no difference
between the two bodies but the offsets of the labels of the block.  The lines that
are shown for a method are those of the body that is made of the assembled fragment,
and do not tell whether there is a block. -/
theorem block_makes_same_method :
    (∀ (settings : Settings) (count : Nat) (fragment : List Element),
      LabelsBelow count fragment →
        ((∃ body, { settings with block := false }.body count fragment = .ok body) ↔
          ∃ body, { settings with block := true }.body count fragment = .ok body) ∧
        ∀ body other,
          { settings with block := false }.body count fragment = .ok body →
          { settings with block := true }.body count fragment = .ok other →
          body.AgreesBelow count other) ∧
    ∀ (settings : Settings) (text : String) (lines : List String),
      ({ settings with block := true }.Prints text lines ↔
        { settings with block := false }.Prints text lines) ∧
      (settings.Prints text lines ↔
        ∃ terminal elements count names body, settings.terminal = .ok terminal ∧
          (assemble text).run terminal {} =
            (.ok elements, terminal.withLabels count, names) ∧
          settings.body count elements.toList = .ok body ∧
          lines = bodyLines names body) := by
  constructor
  · intro settings count fragment hbelow
    refine ⟨⟨?_, ?_⟩, ?_⟩
    · intro h
      exact Settings.exists_body_withBlock hbelow h true
    · intro h
      exact Settings.exists_body_withBlock hbelow h false
    · intro body other h hother
      exact Settings.body_agrees hbelow h hother
  · intro settings text lines
    refine ⟨⟨?_, ?_⟩, Settings.prints_iff_body⟩
    · intro h
      exact h.withBlock false
    · intro h
      exact h.withBlock true

/-- A loop that moves a wide value to a slot of its own. -/
def storingLoop : List Element :=
  [.label ⟨0⟩, .store .long 7, .branch (.goto ⟨0⟩)]

/-- A method with an `int` and a `long` for parameters and one more local. -/
def loopSettings : Settings where
  source := .standardInput
  flags := .accPublic
  descriptor := { parameters := [.base .int, .base .long], result := none }
  hostLocals := 1
  buffered := true

/-- The method of the loop. -/
def loopBody : MethodBody where
  code := #[55, 5, 167, 255, 254]
  maxLocals := 7
  labelOffsets := #[some 0]
  handlers := #[]
  lines := #[]
  localVariables := #[]
  localVariableTypes := #[]

/-- The loop needs seven slots, although a block has allocated the last of them. -/
theorem block_makes_same_method_loop :
    LabelsBelow 1 storingLoop ∧
      { loopSettings with block := false }.body 1 storingLoop = .ok loopBody ∧
      ∃ other, { loopSettings with block := true }.body 1 storingLoop = .ok other ∧
        other.labelOffsets.size = 4 ∧ loopBody.AgreesBelow 1 other := by
  have hbelow : LabelsBelow 1 storingLoop := by
    unfold LabelsBelow
    decide
  have hbody : { loopSettings with block := false }.body 1 storingLoop =
      .ok loopBody := by
    decide +kernel
  have hother : { loopSettings with block := true }.body 1 storingLoop =
      .ok { loopBody with labelOffsets := #[some 0, some 5, some 0, some 5] } := by
    decide +kernel
  have hsame := (block_makes_same_method.1 loopSettings 1 storingLoop hbelow).2
  exact ⟨hbelow, hbody, _, hother, rfl, hsame _ _ hbody hother⟩

end JvmMethod
