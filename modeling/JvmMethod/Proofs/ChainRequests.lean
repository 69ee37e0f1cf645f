import JvmMethod.Proofs.BlockReachability
import JvmMethod.Proofs.EmittedLabels
import JvmMethod.Proofs.ScriptRequests

/-!
# What a chain answers

A chain of builders answers a script by passing its requests down through its
layers.  This module says, for one request after the other, what becomes of the
chain.

* `Chain.run_bind`: a chain answers one script after the other.
* `Chain.run_past`: some requests go past all layers to the terminal.
* `Chain.run_allocate`: a slot is taken from the uppermost block, or from the
  terminal if no block is open.
* `Chain.run_openBlockFrom`, `Chain.run_closeBlock`: opening and closing a block
  on top of a chain, whatever the transforms in it do.
-/

namespace JvmMethod

variable {ω α β : Type}

theorem Script.run_bind (script : Script ω α) (next : α → Script ω β)
    (terminal : Terminal) (ambient : ω) :
    (script.bind next).run terminal ambient =
      (next (script.run terminal ambient).1).run
        (script.run terminal ambient).2.1 (script.run terminal ambient).2.2 := by
  induction script generalizing terminal ambient with
  | done => rfl
  | ask _ _ ih => exact ih _ _ _
  | read _ ih => exact ih _ _ _
  | change _ _ ih => exact ih _ _

/-- **What a block keeps** when it notes an element, and when it hands out a slot
that the script may ask for, it has kept in the end. -/
theorem Script.Asks.ensures_inBlock {script : Script ω α}
    {allowed : Request → Prop} (h : script.Asks allowed) {kept : Block → Prop}
    (hnote : ∀ block element answer, kept block →
      kept (block.noteAnswer element answer))
    (hallocate : ∀ block kind, allowed (.allocate kind) → kept block →
      kept (block.allocate kind).2)
    {block : Block} (hblock : kept block) :
    (script.inBlock block).Ensures fun (_, last) => kept last := by
  induction script generalizing block with
  | done => exact hblock
  | ask request next ih =>
    obtain ⟨hrequest, hnext⟩ := h
    cases request with
    | push element =>
      exact fun answer => ih answer (hnext answer) (hnote block element answer hblock)
    | allocate kind => exact ih _ (hnext _) (hallocate block kind hrequest hblock)
    | topLocal => exact ih _ (hnext _) hblock
    | layers => exact fun layers => ih _ (hnext _) hblock
    | _ => exact fun answer => ih answer (hnext answer) hblock
  | read _ ih => exact fun state => ih state (h state) hblock
  | change _ _ ih => exact ih h hblock

/-- The request goes past all layers to the terminal. -/
def Request.IsPast : Request → Prop
  | .freshLabel | .terminal | .terminalPush _ | .terminalAllocate _ => True
  | _ => False

/-- A label that is not placed can be. -/
theorem Terminal.push_label {terminal : Terminal} {label : Label}
    (h : terminal.labels.isBound label = false) :
    ∃ next, terminal.push (.label label) = (.ok (), next) := by
  cases terminal with
  | direct state =>
    have htakes : state.Takes (.label label) := by
      refine (Direct.takes_pseudo_iff rfl).2 ⟨rfl, ?_⟩
      rintro other ⟨⟩
      exact LabelTable.isBound_eq_false_iff.1 h
    have hpush := Direct.push_eq_ok_iff.2 ⟨htakes, rfl⟩
    exact ⟨.direct (state.taken (.label label)), by simp only [push, hpush]⟩
  | buffered state =>
    have hunbound : state.labels.isBound label = false := h
    refine ⟨.buffered (state.push (.label label)).2, ?_⟩
    simp [push, Buffered.push, hunbound]

theorem Terminal.topLocal_freshLabel (terminal : Terminal) :
    terminal.freshLabel.2.topLocal = terminal.topLocal := by
  cases terminal <;> rfl

namespace Chain

/-- The terminal of a chain. -/
def bottom : Chain ω → Terminal
  | .terminal state => state
  | .block _ below => below.bottom
  | .transform _ _ below => below.bottom

/-- The chain over another terminal. -/
def withBottom (chain : Chain ω) (bottom : Terminal) : Chain ω :=
  match chain with
  | .terminal _ => .terminal bottom
  | .block opened below => .block opened (below.withBottom bottom)
  | .transform layer stage below =>
      .transform layer stage (below.withBottom bottom)

/-- Takes a slot from the uppermost block, or from the terminal. -/
def allocate (chain : Chain ω) (kind : Kind) : Except Fault Slot × Chain ω :=
  match chain with
  | .terminal state =>
      let (answer, state) := state.allocate kind
      (answer, .terminal state)
  | .block opened below =>
      let (answer, opened) := opened.allocate kind
      (answer, .block opened below)
  | .transform layer stage below =>
      let (answer, below) := below.allocate kind
      (answer, .transform layer stage below)

/-- What the builders of a chain know of local slots, from the top down: the
next slot that a block or the terminal hands out, and nothing for a
transform. -/
def outline : Chain ω → List (Option Slot)
  | .terminal state => [some state.topLocal]
  | .block opened below => some opened.topLocal :: below.outline
  | .transform _ _ below => none :: below.outline

variable (chain : Chain ω) (ambient : ω)

theorem run_bind (script : Script ω α) (next : α → Script ω β) :
    chain.run (script.bind next) ambient =
      (chain.run script ambient).2.1.run (next (chain.run script ambient).1)
        (chain.run script ambient).2.2 := by
  induction chain generalizing α β with
  | terminal state =>
    simp only [run, Script.run_bind]
  | block opened below ih =>
    simp only [run, Script.inBlock_bind, ih]
  | transform layer stage below ih =>
    simp only [run, Script.through_bind, ih]

/-- One request, and then the others. -/
theorem run_ask (request : Request) (next : request.Answer → Script ω α) :
    chain.run (.ask request next) ambient =
      (chain.run (.send request) ambient).2.1.run
        (next (chain.run (.send request) ambient).1)
        (chain.run (.send request) ambient).2.2 :=
  chain.run_bind ambient (.send request) next

/-- Looking at the ambient state. -/
theorem run_read (next : ω → Script ω α) :
    chain.run (.read next) ambient = chain.run (next ambient) ambient := by
  induction chain generalizing α with
  | terminal state => rfl
  | block opened below ih => simp only [run, Script.inBlock, ih]
  | transform layer stage below ih => simp only [run, Script.through, ih]

/-- Changing the ambient state. -/
theorem run_change (f : ω → ω) (next : Script ω α) :
    chain.run (.change f next) ambient = chain.run next (f ambient) := by
  induction chain generalizing α with
  | terminal state => rfl
  | block opened below ih => simp only [run, Script.inBlock, ih]
  | transform layer stage below ih => simp only [run, Script.through, ih]

theorem run_past {request : Request} (h : request.IsPast)
    (next : request.Answer → Script ω α) :
    chain.run (.ask request next) ambient =
      (chain.withBottom (chain.bottom.answer request).2).run
        (next (chain.bottom.answer request).1) ambient := by
  induction chain generalizing α with
  | terminal state => rfl
  | block opened below ih =>
    cases request with
    | push _ | allocate _ | topLocal | layers => cases h
    | _ => simp only [run, Script.inBlock, ih, withBottom, bottom]
  | transform layer stage below ih =>
    cases request with
    | push _ | allocate _ | topLocal | layers => cases h
    | _ => simp only [run, Script.through, ih, withBottom, bottom]

/-- The next free slot, and then the others. -/
theorem run_ask_topLocal (next : Slot → Script ω α) :
    chain.run (.ask .topLocal next) ambient =
      chain.run (next chain.topLocal) ambient := by
  rw [run_ask, run_topLocal]

/-- Taking a slot. -/
theorem run_allocate (kind : Kind) :
    chain.run (.send (.allocate kind)) ambient =
      ((chain.allocate kind).1, (chain.allocate kind).2, ambient) := by
  induction chain with
  | terminal state => rfl
  | block opened below ih =>
    simp only [Script.send, run, Script.inBlock, run_done, allocate]
  | transform layer stage below ih =>
    have hbelow : below.run (.ask (.allocate kind) fun answer => .done answer)
        ambient = _ := ih
    simp only [Script.send, run, Script.through, hbelow, allocate]

section Bottom

variable {chain} {state : Terminal}
  (h : state.topLocal = chain.bottom.topLocal)
include h

/-- The slots of a chain are not about what else its terminal knows. -/
theorem outline_withBottom : (chain.withBottom state).outline = chain.outline := by
  induction chain with
  | terminal _ => exact congrArg (fun top => [some top]) h
  | block opened below ih => exact congrArg (some opened.topLocal :: ·) (ih h)
  | transform layer stage below ih => exact congrArg (none :: ·) (ih h)

theorem topLocal_withBottom : (chain.withBottom state).topLocal = chain.topLocal := by
  induction chain with
  | terminal _ => exact h
  | block opened below ih => rfl
  | transform layer stage below ih => exact ih h

end Bottom

@[simp] theorem bottom_withBottom (state : Terminal) :
    (chain.withBottom state).bottom = state := by
  induction chain with
  | terminal _ => rfl
  | block _ _ ih => exact ih
  | transform _ _ _ ih => exact ih

@[simp] theorem withBottom_bottom : chain.withBottom chain.bottom = chain := by
  induction chain with
  | terminal _ => rfl
  | block opened _ ih => exact congrArg (Chain.block opened) ih
  | transform layer stage _ ih => exact congrArg (Chain.transform layer stage) ih

@[simp] theorem withBottom_withBottom (state last : Terminal) :
    (chain.withBottom state).withBottom last = chain.withBottom last := by
  induction chain with
  | terminal _ => rfl
  | block opened _ ih => exact congrArg (Chain.block opened) ih
  | transform layer stage _ ih => exact congrArg (Chain.transform layer stage) ih

end Chain

namespace Build

/-- What opening a block asks for. -/
theorem run_openBlockAt (startLabel breakLabel : Label) :
    (openBlockAt startLabel breakLabel : Build ω Block).run =
      .ask .freshLabel fun stopLabel =>
        .ask .topLocal fun topLocal =>
          .ask .terminal fun terminal =>
            .ask (.terminalPush (.label startLabel)) fun answer =>
              .done (answer.map fun _ =>
                { startLabel, stopLabel, breakLabel, topLocal
                  terminalTop := terminal.topLocal }) := by
  refine congrArg (Script.ask _) (funext fun stopLabel => ?_)
  refine congrArg (Script.ask _) (funext fun topLocal => ?_)
  refine congrArg (Script.ask _) (funext fun terminal => ?_)
  refine congrArg (Script.ask _) (funext fun answer => ?_)
  cases answer <;> rfl

/-- What closing a block asks for. -/
theorem run_closeBlock (block : Block) :
    (closeBlock block : Build ω BlockSummary).run =
      .ask (.terminalPush (.label block.stopLabel)) fun answer =>
        match answer with
        | .error fault => .done (.error fault)
        | .ok () =>
            .ask .terminal fun terminal =>
              .done
                (if terminal.topLocal = block.terminalTop then .ok block.summary
                else .error
                  (.localSlotInterference block.terminalTop terminal.topLocal)) := by
  refine congrArg (Script.ask _) (funext fun answer => ?_)
  cases answer with
  | error fault => rfl
  | ok _ =>
    refine congrArg (Script.ask _) (funext fun terminal => ?_)
    simp only [Script.bind, Function.comp_apply, ExceptT.bindCont]
    split <;> rfl

end Build

namespace Chain

variable (chain : Chain ω) (ambient : ω)

/-- Opening a block whose start label was made ahead of time. -/
theorem run_openBlockAt (startLabel breakLabel : Label) :
    let stop := chain.bottom.freshLabel
    let placed := stop.2.push (.label startLabel)
    chain.run (Build.openBlockAt startLabel breakLabel).run ambient =
      (placed.1.map fun _ =>
          { startLabel, stopLabel := stop.1, breakLabel
            topLocal := chain.topLocal, terminalTop := chain.bottom.topLocal },
        chain.withBottom placed.2, ambient) := by
  intro stop placed
  have hfresh : Request.freshLabel.IsPast := trivial
  have hterminal : Request.terminal.IsPast := trivial
  have hpush : (Request.terminalPush (.label startLabel)).IsPast := trivial
  have htop := chain.bottom.topLocal_freshLabel
  rw [Build.run_openBlockAt, run_past _ _ hfresh, run_ask_topLocal,
    run_past _ _ hterminal, run_past _ _ hpush, run_done]
  simp only [Terminal.answer, bottom_withBottom, withBottom_withBottom, htop,
    topLocal_withBottom htop]
  rfl

/-- What is left when a block has been opened over a chain, or could not be: the
terminal has handed out no slots meanwhile, and the block goes on from the next
free slot of the chain. -/
structure OpensOver (chain : Chain ω) (answer : Except Fault Block)
    (state : Terminal) : Prop where
  state_topLocal : state.topLocal = chain.bottom.topLocal
  block_topLocal : ∀ block, answer = .ok block → block.topLocal = chain.topLocal
  block_terminalTop :
    ∀ block, answer = .ok block → block.terminalTop = chain.bottom.topLocal

theorem opensOver_openBlockAt (startLabel breakLabel : Label) :
    ∃ answer state,
      chain.run (Build.openBlockAt startLabel breakLabel).run ambient =
        (answer, chain.withBottom state, ambient) ∧
      chain.OpensOver answer state := by
  refine ⟨_, _, chain.run_openBlockAt ambient startLabel breakLabel, ?_, ?_, ?_⟩
  · rw [Terminal.topLocal_push, Terminal.topLocal_freshLabel]
  all_goals
    intro block hblock
    cases hplaced : (chain.bottom.freshLabel.2.push (.label startLabel)).1 with
    | error fault =>
      rw [hplaced] at hblock
      cases hblock
    | ok placed =>
      rw [hplaced] at hblock
      cases hblock
      rfl

/-- A label is no slot. -/
theorem OpensOver.of_freshLabel {chain : Chain ω} {answer : Except Fault Block}
    {state : Terminal}
    (h : (chain.withBottom chain.bottom.freshLabel.2).OpensOver answer state) :
    chain.OpensOver answer state := by
  have htop := chain.bottom.topLocal_freshLabel
  obtain ⟨hstate, hblock, hterminal⟩ := h
  rw [bottom_withBottom, htop] at hstate hterminal
  rw [topLocal_withBottom htop] at hblock
  exact ⟨hstate, hblock, hterminal⟩

/-- **Opening a block** on top of a chain, whatever the transforms in it do. -/
theorem run_openBlockFrom (startLabel? : Option Label) (breakLabel : Label) :
    ∃ answer state,
      chain.run (Build.openBlockFrom startLabel? breakLabel).run ambient =
        (answer, chain.withBottom state, ambient) ∧
      chain.OpensOver answer state := by
  cases startLabel? with
  | some startLabel =>
    exact chain.opensOver_openBlockAt ambient startLabel breakLabel
  | none =>
    have hfresh : Request.freshLabel.IsPast := trivial
    have hopen : (Build.openBlockFrom none breakLabel : Build ω Block).run =
        .ask .freshLabel fun startLabel =>
          (Build.openBlockAt startLabel breakLabel).run := rfl
    obtain ⟨answer, state, hrun, hopens⟩ :=
      (chain.withBottom chain.bottom.freshLabel.2).opensOver_openBlockAt ambient
        chain.bottom.freshLabel.1 breakLabel
    refine ⟨answer, state, ?_, hopens.of_freshLabel⟩
    rw [hopen, run_past _ _ hfresh]
    simpa only [Terminal.answer, withBottom_withBottom] using hrun

/-- **Closing a block** on top of a chain.  The terminal does not hand out slots
meanwhile, and if it can take the stop label, it is all about how many slots it
has handed out before. -/
theorem run_closeBlock (block : Block) :
    ∃ answer state,
      chain.run (Build.closeBlock block).run ambient =
        (answer, chain.withBottom state, ambient) ∧
      state.topLocal = chain.bottom.topLocal ∧
      (chain.bottom.labels.isBound block.stopLabel = false →
        answer =
          if chain.bottom.topLocal = block.terminalTop then .ok block.summary
          else .error (.localSlotInterference block.terminalTop
            chain.bottom.topLocal)) := by
  have hpush : (Request.terminalPush (.label block.stopLabel)).IsPast := trivial
  have hterminal : Request.terminal.IsPast := trivial
  have htop := chain.bottom.topLocal_push (.label block.stopLabel)
  rw [Build.run_closeBlock, run_past _ _ hpush]
  simp only [Terminal.answer]
  rcases hplaced : chain.bottom.push (.label block.stopLabel) with
    ⟨fault | ⟨⟩, state⟩
  · rw [hplaced] at htop
    refine ⟨.error fault, state, by simp only [run_done], htop, ?_⟩
    intro hunbound
    obtain ⟨next, hnext⟩ := Terminal.push_label hunbound
    rw [hnext] at hplaced
    cases hplaced
  · rw [hplaced] at htop
    simp only [run_past _ _ hterminal, run_done, Terminal.answer, bottom_withBottom,
      withBottom_withBottom]
    exact ⟨_, state, rfl, htop, fun _ => by rw [htop]⟩

end Chain

end JvmMethod
