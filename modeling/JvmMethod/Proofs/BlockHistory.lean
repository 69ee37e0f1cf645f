import Mathlib.Data.List.DropRight
import Mathlib.Data.List.Forall2
import JvmMethod.Proofs.LiveSlots

/-!
# What the flags of a block tell

A block keeps two flags, and moves them as elements pass it.  Each of them tells
something of the block's *history*, which is all that has passed it since it was
opened.  An element passes a block if it is pushed into it and what is below takes
it: a refused element leaves no trace in the block, and neither do the labels
around the blocks inside, which go past.

* `Block.Tells`: what the flags say of a history.
* `Chain.tells_run`: whatever is done with a chain, the flags of its blocks tell
  what has passed each of them.
* `Scopes.flags_tell_history`: so they do while blocks are opened and left, and
  transforms are put in between.
-/

namespace JvmMethod

variable {ω α β : Type}

/-- The element never continues behind itself. -/
def ElementOf.IsUnconditional {ℓ : Type} : ElementOf ℓ → Prop
  | .branch (.goto _) | .branch (.tableSwitch ..) | .branch (.lookupSwitch ..) => True
  | .methodReturn _ | .athrow => True
  | _ => False

theorem ElementOf.flow_eq_leave_iff {ℓ : Type} (element : ElementOf ℓ) :
    element.flow = .leave ↔ element.IsUnconditional := by
  cases element with
  | branch instruction => cases instruction <;> simp [flow, Branch.flow, IsUnconditional]
  | _ => simp [flow, IsUnconditional]

/-- The part of a history behind its last label, or all of it. -/
def sinceLabel (history : List Element) : List Element :=
  history.rtakeWhile fun element => !element.isLabel

/-- What the flags of a block say of the elements that have passed it. -/
structure Block.Tells (block : Block) (history : List Element) : Prop where
  reachable_iff : block.reachable = true ↔
    ∀ element ∈ sinceLabel history, ¬ element.IsUnconditional
  isEmpty_iff : block.summary.isEmpty = true ↔
    ∀ element ∈ history, element.isPseudo = true

namespace Block.Tells

variable {block : Block} {history : List Element}

theorem of_opened (hreachable : block.reachable = true)
    (hempty : block.hasInstructions = false) : block.Tells [] where
  reachable_iff := by simp [hreachable, sinceLabel]
  isEmpty_iff := by simp [summary, hempty]

/-- One element more. -/
theorem note (h : block.Tells history) (element : Element) :
    (block.note element).Tells (history ++ [element]) where
  reachable_iff := by
    have hflow := element.flow_eq_leave_iff
    cases hlabel : element.isLabel with
    | true =>
      -- behind a label nothing has passed yet, and a label itself goes on
      have hsince : sinceLabel (history ++ [element]) = [] :=
        List.rtakeWhile_concat_neg _ _ _ (by simp [hlabel])
      have hgoes : element.flow ≠ .leave := by
        cases element <;> first | exact ControlFlow.noConfusion | cases hlabel
      simp [Block.note, hsince, hlabel, hgoes]
    | false =>
      have hsince : sinceLabel (history ++ [element]) =
          sinceLabel history ++ [element] :=
        List.rtakeWhile_concat_pos _ _ _ (by simp [hlabel])
      rw [hsince, List.forall_mem_append, List.forall_mem_singleton, ← hflow,
        ← h.reachable_iff]
      cases hreachable : block.reachable <;> simp [Block.note, hreachable, hlabel]
  isEmpty_iff := by
    rw [List.forall_mem_append, List.forall_mem_singleton, ← h.isEmpty_iff]
    simp [summary, Block.note]

theorem allocate (h : block.Tells history) (kind : Kind) :
    (block.allocate kind).2.Tells history := by
  unfold Block.allocate
  split <;> exact ⟨h.reachable_iff, h.isEmpty_iff⟩

end Block.Tells

/-- The element that arrived, if it came through the layers. -/
def Arrival.through? : Arrival → Option Element
  | .through element => some element
  | .past _ => none

/-- The element that passes with a request, by how it is answered. -/
def Request.passing (request : Request) (answer : request.Answer) : List Element :=
  (request.arrivals answer).filterMap Arrival.through?

namespace Script

/-- Gathers, behind `passed`, the elements that are pushed and taken. -/
def gather (passed : List Element) : Script ω α → Script ω (α × List Element)
  | .done result => .done (result, passed)
  | .ask request next =>
      .ask request fun answer =>
        (next answer).gather (passed ++ request.passing answer)
  | .read next => .read fun ambient => (next ambient).gather passed
  | .change f next => .change f (next.gather passed)

/-- Gathering does not change what a script does. -/
theorem gather_bind_done (script : Script ω α) (passed : List Element) :
    (script.gather passed).bind (fun result => .done result.1) = script := by
  induction script generalizing passed with
  | done => rfl
  | ask request _ ih =>
    exact congrArg (Script.ask request) (funext fun answer => ih answer _)
  | read _ ih => exact congrArg Script.read (funext fun ambient => ih ambient _)
  | change f _ ih => exact congrArg (Script.change f) (ih _)

/-- **A block tells what passes it** while a script is run inside. -/
theorem tells_inBlock (script : Script ω α) (passed : List Element) (block : Block)
    {history : List Element} (h : block.Tells (history ++ passed)) :
    ((script.gather passed).inBlock block).Ensures fun ((_, passed), last) =>
      last.Tells (history ++ passed) := by
  induction script generalizing passed block with
  | done => exact h
  | ask request next ih =>
    have hquiet : block.Tells (history ++ (passed ++ [])) := by
      rwa [List.append_nil]
    cases request with
    | push element =>
      intro answer
      refine ih answer _ _ ?_
      cases answer with
      | ok result =>
        rw [← List.append_assoc]
        exact h.note element
      | error fault => exact hquiet
    | allocate kind => exact ih _ _ _ (hquiet.allocate kind)
    | topLocal => exact ih _ _ _ hquiet
    | terminalPush element =>
      intro answer
      refine ih answer _ _ ?_
      cases answer <;> exact hquiet
    | _ => exact fun answer => ih _ _ _ hquiet
  | read _ ih => exact fun ambient => ih ambient _ _ h
  | change _ _ ih => exact ih _ _ h

end Script

namespace Chain

/-- The open blocks of a chain, the innermost first. -/
def openBlocks : Chain ω → List Block
  | .terminal _ => []
  | .block opened below => opened :: below.openBlocks
  | .transform _ _ below => below.openBlocks

/-- The elements that pass each of the open blocks while a script is run, the
innermost block first.  A transform decides what passes the blocks below it. -/
def passed : Chain ω → {α : Type} → Script ω α → ω → List (List Element)
  | .terminal _, _, _, _ => []
  | .block opened below, _, script, ambient =>
      ((block opened below).run (script.gather []) ambient).1.2 ::
        below.passed (script.inBlock opened) ambient
  | .transform layer stage below, _, script, ambient =>
      below.passed
        (script.through layer fun element => (stage.accept element).run) ambient

variable (chain : Chain ω) (ambient : ω)

theorem run_gather (script : Script ω α) (passed : List Element) :
    chain.run script ambient =
      ((chain.run (script.gather passed) ambient).1.1,
        (chain.run (script.gather passed) ambient).2) := by
  have hbind := chain.run_bind ambient (script.gather passed) fun result =>
    .done result.1
  rw [Script.gather_bind_done, run_done] at hbind
  exact hbind

@[simp] theorem openBlocks_withBottom (state : Terminal) :
    (chain.withBottom state).openBlocks = chain.openBlocks := by
  induction chain with
  | terminal _ => rfl
  | block opened below ih => exact congrArg (opened :: ·) ih
  | transform _ _ below ih => exact ih

/-- **The flags of the blocks tell** what has passed each of them. -/
theorem tells_run (script : Script ω α) {histories : List (List Element)}
    (h : List.Forall₂ Block.Tells chain.openBlocks histories) :
    List.Forall₂ Block.Tells (chain.run script ambient).2.1.openBlocks
      (List.zipWith (· ++ ·) histories (chain.passed script ambient)) := by
  induction chain generalizing α histories with
  | terminal state =>
    cases h
    exact .nil
  | transform layer stage below ih => exact ih _ h
  | block opened below ih =>
    cases h with
    | @cons _ history _ others htells hothers =>
      have hbelow := ih (script.inBlock opened) hothers
      refine .cons ?_ hbelow
      have hstart : opened.Tells (history ++ []) := by rwa [List.append_nil]
      have hensures := below.run_ensures (script.tells_inBlock [] opened hstart) ambient
      have hsame := congrArg (fun run => run.2.1)
        ((block opened below).run_gather ambient script [])
      have hlast : ((below.run (script.inBlock opened) ambient).1.2) =
          (below.run ((script.gather []).inBlock opened) ambient).1.2 :=
        (Chain.block.inj hsame).1
      rw [hlast]
      exact hensures

end Chain

/-- Without transforms, what is gathered is what arrives through the layers. -/
theorem BlockStack.run_gather (script : Script ω α) (passed : List Element)
    (stack : BlockStack) (ambient : ω) :
    (run (script.gather passed) stack ambient).1.2 =
      passed ++ (arrivals script stack ambient).filterMap Arrival.through? := by
  induction script generalizing passed stack ambient with
  | done => simp [Script.gather, run, arrivals]
  | ask request next ih =>
    simp only [Script.gather, run, arrivals, ih, List.filterMap_append,
      Request.passing, List.append_assoc]
  | read _ ih => exact ih _ _ _ _
  | change _ _ ih => exact ih _ _ _

namespace Chain

/-- **Nested blocks**: what arrives through the layers passes every block. -/
theorem passed_of_isBare {chain : Chain ω} (hbare : chain.IsBare)
    (script : Script ω α) (ambient : ω) :
    chain.passed script ambient =
      List.replicate chain.openBlocks.length
        ((chain.arrivals script ambient).filterMap Arrival.through?) := by
  obtain ⟨⟨blocks, terminal⟩, rfl⟩ := hbare.exists_stack
  induction blocks generalizing α with
  | nil => rfl
  | cons block blocks ih =>
    have hinner : (BlockStack.chain ⟨blocks, terminal⟩ : Chain ω).IsBare :=
      BlockStack.isBare_chain _
    have hbelow := ih (script.inBlock block) hinner
    obtain ⟨hrun, -⟩ := BlockStack.run_chain (script.gather [])
      ⟨block :: blocks, terminal⟩ ambient
    obtain ⟨-, hcame⟩ :=
      BlockStack.run_chain script ⟨block :: blocks, terminal⟩ ambient
    have hhead := BlockStack.run_gather script [] ⟨block :: blocks, terminal⟩ ambient
    rw [← hcame, List.nil_append] at hhead
    have hfirst : ((BlockStack.chain ⟨block :: blocks, terminal⟩ : Chain ω).run
        (script.gather []) ambient).1.2 = _ :=
      (congrArg (fun run => run.1.2) hrun).trans hhead
    exact congrArg₂ List.cons hfirst hbelow

/-- A push that is refused leaves the uppermost block as it is. -/
theorem block_of_push_error {block : Block} {below after : Chain ω}
    {element : Element} {fault : Fault} {ambient later : ω}
    (h : (Chain.block block below).run (.send (.push element)) ambient =
      (.error fault, after, later)) : ∃ rest, after = .block block rest := by
  have hnote : (Script.inBlock block (Script.send (.push element) : Script ω _)).Ensures
      fun result => result.2 = block.noteAnswer element result.1 :=
    fun _ => rfl
  have hlast := below.run_ensures hnote ambient
  have hanswer : (below.run (Script.inBlock block
      (Script.send (.push element) : Script ω _)) ambient).1.1 = .error fault :=
    congrArg Prod.fst h
  rw [hanswer] at hlast
  obtain rfl := congrArg (fun run => run.2.1) h
  exact ⟨_, congrArg (Chain.block · _) hlast⟩

end Chain

/-- A block that has just been opened has no history. -/
theorem Build.tells_openBlockFrom (startLabel? : Option Label) (breakLabel : Label) :
    (openBlockFrom startLabel? breakLabel : Build ω Block).run.Ensures
      fun answer => ∀ block, answer = .ok block → block.Tells [] := by
  have hat (startLabel : Label) :
      (openBlockAt startLabel breakLabel : Build ω Block).run.Ensures
        fun answer => ∀ block, answer = .ok block → block.Tells [] := by
    rw [run_openBlockAt]
    intro stopLabel topLocal terminal answer block hblock
    cases answer with
    | error fault => cases hblock
    | ok placed =>
      cases hblock
      exact .of_opened rfl rfl
  cases startLabel? with
  | some startLabel => exact hat startLabel
  | none => exact fun startLabel => hat startLabel

namespace Scopes

/-- The histories of the open blocks, the innermost first, after a step. -/
def extend (scopes : Scopes ω) (histories : List (List Element)) :
    ScopeStep ω → List (List Element)
  | .perform body =>
      List.zipWith (· ++ ·) histories (scopes.chain.passed body.run scopes.ambient)
  | .openBlock startLabel? breakLabel =>
      match (scopes.chain.run (Build.openBlockFrom startLabel? breakLabel).run
          scopes.ambient).1 with
      | .ok _ => [] :: histories
      | .error _ => histories
  | .closeBlock | .dropBlock =>
      match scopes.chain with
      | .block _ _ => histories.tail
      | _ => histories
  | .enter _ _ | .leave => histories

/-- The histories of the open blocks after steps. -/
def histories (scopes : Scopes ω) :
    List (ScopeStep ω) → List (List Element) → List (List Element)
  | [], held => held
  | step :: steps, held => (scopes.step step).2.histories steps (scopes.extend held step)

variable {scopes : Scopes ω} {held : List (List Element)}

/-- One step. -/
theorem tells_step (h : List.Forall₂ Block.Tells scopes.chain.openBlocks held)
    (step : ScopeStep ω) :
    List.Forall₂ Block.Tells (scopes.step step).2.chain.openBlocks
      (scopes.extend held step) := by
  obtain ⟨chain, ambient⟩ := scopes
  cases step with
  | perform body => exact chain.tells_run ambient body.run h
  | openBlock startLabel? breakLabel =>
    obtain ⟨answer, state, hrun, -⟩ :=
      chain.run_openBlockFrom ambient startLabel? breakLabel
    have hopened := chain.run_ensures
      (Build.tells_openBlockFrom startLabel? breakLabel) ambient
    rw [hrun] at hopened
    simp only [step, extend, hrun]
    cases answer with
    | error fault => simpa only [Chain.openBlocks_withBottom] using h
    | ok block =>
      refine .cons (hopened block rfl) ?_
      simpa only [Chain.openBlocks_withBottom] using h
  | closeBlock =>
    cases chain with
    | block block below =>
      obtain ⟨answer, state, hrun, -⟩ := below.run_closeBlock ambient block
      simp only [step, extend, hrun, Chain.openBlocks_withBottom]
      cases h with
      | cons _ hothers => exact hothers
    | _ => exact h
  | dropBlock =>
    cases chain with
    | block block below =>
      cases h with
      | cons _ hothers => exact hothers
    | _ => exact h
  | enter layer stage => exact h
  | leave => cases chain <;> exact h

/-- All steps. -/
theorem tells_histories (h : List.Forall₂ Block.Tells scopes.chain.openBlocks held)
    (steps : List (ScopeStep ω)) :
    List.Forall₂ Block.Tells (scopes.run steps).2.chain.openBlocks
      (scopes.histories steps held) := by
  induction steps generalizing scopes held with
  | nil => exact h
  | cons step steps ih => exact ih (tells_step h step)

/-- **The flags of every open block tell its history**, however blocks and
transforms are stacked over the terminal and taken away again, and whatever is
done with the innermost builder, with or without success.  In blocks that are
nested without a transform in between, an element that arrives from the innermost
one passes all of them, and what is put past them, as labels of blocks are, passes
none.  A refused element changes nothing. -/
theorem flags_tell_history (terminal : Terminal) (ambient : ω)
    (steps : List (ScopeStep ω)) :
    List.Forall₂ Block.Tells
        ((start terminal ambient).run steps).2.chain.openBlocks
        ((start terminal ambient).histories steps []) ∧
      (∀ {α : Type} (chain : Chain ω) (script : Script ω α) (ambient : ω),
        chain.IsBare →
        chain.passed script ambient =
          List.replicate chain.openBlocks.length
            ((chain.arrivals script ambient).filterMap Arrival.through?)) ∧
      ∀ (block : Block) (below after : Chain ω) (element : Element) (fault : Fault)
        (ambient later : ω),
        (Chain.block block below).run (.send (.push element)) ambient =
          (.error fault, after, later) →
        ∃ rest, after = .block block rest :=
  ⟨tells_histories .nil steps,
    fun _ script ambient hbare => Chain.passed_of_isBare hbare script ambient,
    fun _ _ _ _ _ _ _ h => Chain.block_of_push_error h⟩

/-- A jump, and behind it a block inside, with an element that is taken and a
label that is refused, since the outer block has placed it. -/
def deadEndSteps : List (ScopeStep Unit) :=
  [.openBlock none ⟨9⟩, .perform (Build.goto ⟨9⟩), .openBlock none ⟨9⟩,
    .perform (Build.push (.operator .nop)), .perform (Build.place ⟨0⟩)]

/-- Both blocks, over the terminal. -/
def deadEnd : Chain Unit :=
  ((start (.buffered (.withInitialLocals 0)) ()).run deadEndSteps).2.chain

/-- The labels of the block inside do not make the outer one reachable, but what
is pushed inside has passed the outer one, too.  The next instruction passes both,
and a label that is refused leaves the block inside as it is. -/
theorem deadEnd_flags :
    ∃ inner outer : Block,
      deadEnd.openBlocks = [inner, outer] ∧
      inner.Tells [.operator .nop] ∧
      outer.Tells [.branch (.goto ⟨9⟩), .operator .nop] ∧
      inner.reachable = true ∧ outer.reachable = false ∧
      inner.summary.isEmpty = false ∧
      deadEnd.passed (Build.push (.operator .nop)).run () =
        [[.operator .nop], [.operator .nop]] ∧
      ∃ rest, (deadEnd.run (.send (.push (.label ⟨0⟩))) ()).2.1 = .block inner rest := by
  obtain ⟨hflags, hpassed, hrefused⟩ :=
    flags_tell_history (.buffered (.withInitialLocals 0)) () deadEndSteps
  have htold : List.Forall₂ Block.Tells _
      [[.operator .nop], [.branch (.goto ⟨9⟩), .operator .nop]] := hflags
  obtain ⟨hinner, hrest⟩ := List.forall₂_cons.1 htold
  obtain ⟨houter, -⟩ := List.forall₂_cons.1 hrest
  have hbare : deadEnd.IsBare := trivial
  have hboth := hpassed deadEnd (Build.push (.operator .nop)).run () hbare
  have hkept := hrefused _ _ _ (.label ⟨0⟩) _ () _ (rfl : deadEnd.run _ () = _)
  exact ⟨_, _, rfl, hinner, houter, rfl, rfl, rfl, hboth, hkept⟩

end Scopes

end JvmMethod
