import JvmMethod.Proofs.BuilderChain
import JvmMethod.Proofs.ScriptRequests

/-!
# Blocks over a terminal

A chain without transforms is a list of blocks over a terminal, and answers a
request at once: what is pushed goes to the terminal and is noted by all blocks
on the way, and local slots come from the uppermost block.  So a script runs on
it as on a flat machine.

What a script leaves behind, besides the stack, are its *arrivals*: the elements
that the terminal has taken, in order, each with the way it came.

* `BlockStack.run_chain`, `BlockStack.arrivals_chain`: the flat machine runs
  scripts as the chain does.
* `BlockStack.run_induction`: what every request keeps, every script keeps.
* `BlockStack.Yields`: a script that may fail, and does not.
-/

namespace JvmMethod

variable {ω α β : Type}

/-- An element that the terminal has taken, and how it came there. -/
inductive Arrival where
  /-- It was pushed, through all layers. -/
  | through (element : Element)
  /-- It was put into the terminal itself, past all layers. -/
  | past (element : Element)
  deriving DecidableEq

/-- The element that arrived. -/
def Arrival.element : Arrival → Element
  | .through element => element
  | .past element => element

/-- What arrives with a request, by how it is answered. -/
def Request.arrivals : (request : Request) → request.Answer → List Arrival
  | .push element, .ok () => [.through element]
  | .terminalPush element, .ok () => [.past element]
  | _, _ => []

/-- What arrives while a script is run. -/
def Script.arrivals : Script ω α → Terminal → ω → List Arrival
  | .done _, _, _ => []
  | .ask request next, terminal, state =>
      match terminal.answer request with
      | (answer, terminal) =>
          request.arrivals answer ++ (next answer).arrivals terminal state
  | .read next, terminal, state => (next state).arrivals terminal state
  | .change f next, terminal, state => next.arrivals terminal (f state)

namespace Chain

/-- What arrives while a script is run on a chain. -/
def arrivals : Chain ω → {α : Type} → Script ω α → ω → List Arrival
  | .terminal state, _, script, ambient => script.arrivals state ambient
  | .block opened below, _, script, ambient =>
      below.arrivals (script.inBlock opened) ambient
  | .transform layer stage below, _, script, ambient =>
      below.arrivals
        (script.through layer fun element => (stage.accept element).run) ambient

/-- The elements that the terminal gets while a script is run on a chain. -/
def emitted (chain : Chain ω) (script : Script ω α) (ambient : ω) :
    List Element :=
  (chain.arrivals script ambient).map Arrival.element

/-- There are no transforms between the terminal and the top of the chain. -/
def IsBare : Chain ω → Prop
  | .terminal _ => True
  | .block _ below => below.IsBare
  | .transform .. => False

end Chain

/-- Blocks over a terminal, the innermost first. -/
structure BlockStack where
  blocks : List Block
  terminal : Terminal

namespace BlockStack

/-- The next slot that is handed out. -/
def topLocal (stack : BlockStack) : Slot :=
  match stack.blocks with
  | [] => stack.terminal.topLocal
  | block :: _ => block.topLocal

/-- What a stack answers, and what becomes of it. -/
def answer (stack : BlockStack) :
    (request : Request) → request.Answer × BlockStack
  | .push element =>
      let (answer, terminal) := stack.terminal.push element
      (answer,
        { blocks := stack.blocks.map (·.noteAnswer element answer), terminal })
  | .freshLabel =>
      let (label, terminal) := stack.terminal.freshLabel
      (label, { stack with terminal })
  | .allocate kind =>
      match stack.blocks with
      | [] =>
          let (answer, terminal) := stack.terminal.allocate kind
          (answer, { stack with terminal })
      | block :: blocks =>
          let (answer, block) := block.allocate kind
          (answer, { stack with blocks := block :: blocks })
  | .topLocal => (stack.topLocal, stack)
  | .terminal => (stack.terminal, stack)
  | .layers => (stack.blocks.map Layer.block, stack)
  | .terminalPush element =>
      let (answer, terminal) := stack.terminal.push element
      (answer, { stack with terminal })
  | .terminalAllocate kind =>
      let (answer, terminal) := stack.terminal.allocate kind
      (answer, { stack with terminal })

/-- Runs a script on a stack, with an ambient state. -/
def run : Script ω α → BlockStack → ω → α × BlockStack × ω
  | .done result, stack, ambient => (result, stack, ambient)
  | .ask request next, stack, ambient =>
      run (next (stack.answer request).1) (stack.answer request).2 ambient
  | .read next, stack, ambient => run (next ambient) stack ambient
  | .change f next, stack, ambient => run next stack (f ambient)

/-- What arrives while a script is run. -/
def arrivals : Script ω α → BlockStack → ω → List Arrival
  | .done _, _, _ => []
  | .ask request next, stack, ambient =>
      request.arrivals (stack.answer request).1 ++
        arrivals (next (stack.answer request).1) (stack.answer request).2 ambient
  | .read next, stack, ambient => arrivals (next ambient) stack ambient
  | .change f next, stack, ambient => arrivals next stack (f ambient)

/-- The stack as a chain. -/
def chain (stack : BlockStack) : Chain ω :=
  stack.blocks.foldr .block (.terminal stack.terminal)

variable {stack after : BlockStack} {ambient later : ω}

theorem run_bind (script : Script ω α) (next : α → Script ω β)
    (stack : BlockStack) (ambient : ω) :
    run (script.bind next) stack ambient =
      run (next (run script stack ambient).1) (run script stack ambient).2.1
        (run script stack ambient).2.2 := by
  induction script generalizing stack ambient with
  | done => rfl
  | ask _ _ ih => exact ih _ _ _
  | read _ ih => exact ih _ _ _
  | change _ _ ih => exact ih _ _

theorem arrivals_bind (script : Script ω α) (next : α → Script ω β)
    (stack : BlockStack) (ambient : ω) :
    arrivals (script.bind next) stack ambient =
      arrivals script stack ambient ++
        arrivals (next (run script stack ambient).1)
          (run script stack ambient).2.1 (run script stack ambient).2.2 := by
  induction script generalizing stack ambient with
  | done => rfl
  | ask _ _ ih =>
    simp only [Script.bind, arrivals, run, ih, List.append_assoc]
  | read _ ih => exact ih _ _ _
  | change _ _ ih => exact ih _ _

/-- **Working inside a block** is working on the stack with the block on top. -/
theorem run_inBlock (script : Script ω α) (block : Block) (blocks : List Block)
    (terminal : Terminal) (ambient : ω) :
    ∃ result last rest final later,
      run script ⟨block :: blocks, terminal⟩ ambient =
        (result, ⟨last :: rest, final⟩, later) ∧
      run (script.inBlock block) ⟨blocks, terminal⟩ ambient =
        ((result, last), ⟨rest, final⟩, later) ∧
      arrivals (script.inBlock block) ⟨blocks, terminal⟩ ambient =
        arrivals script ⟨block :: blocks, terminal⟩ ambient := by
  induction script generalizing block blocks terminal ambient with
  | done result => exact ⟨result, block, blocks, terminal, ambient, rfl, rfl, rfl⟩
  | ask request next ih =>
    cases request with
    | push element =>
      obtain ⟨result, last, rest, final, later, hrun, hinner, harrivals⟩ :=
        ih (terminal.push element).1
          (block.noteAnswer element (terminal.push element).1)
          (blocks.map (·.noteAnswer element (terminal.push element).1))
          (terminal.push element).2 ambient
      exact ⟨result, last, rest, final, later, hrun, hinner,
        congrArg (Request.arrivals (.push element) (terminal.push element).1 ++ ·)
          harrivals⟩
    | allocate kind =>
      exact ih (block.allocate kind).1 (block.allocate kind).2 blocks terminal
        ambient
    | topLocal => exact ih block.topLocal block blocks terminal ambient
    | layers =>
      exact ih (.block block :: blocks.map Layer.block) block blocks terminal
        ambient
    | freshLabel =>
      exact ih terminal.freshLabel.1 block blocks terminal.freshLabel.2 ambient
    | terminal => exact ih terminal block blocks terminal ambient
    | terminalPush element =>
      obtain ⟨result, last, rest, final, later, hrun, hinner, harrivals⟩ :=
        ih (terminal.push element).1 block blocks (terminal.push element).2 ambient
      exact ⟨result, last, rest, final, later, hrun, hinner,
        congrArg
          (Request.arrivals (.terminalPush element) (terminal.push element).1 ++ ·)
          harrivals⟩
    | terminalAllocate kind =>
      exact ih (terminal.allocate kind).1 block blocks (terminal.allocate kind).2
        ambient
  | read next ih => exact ih ambient block blocks terminal ambient
  | change f next ih => exact ih block blocks terminal (f ambient)

/-- Without blocks, the terminal answers everything. -/
theorem run_terminal (script : Script ω α) (terminal : Terminal) (ambient : ω) :
    run script ⟨[], terminal⟩ ambient =
        ((script.run terminal ambient).1,
          ⟨[], (script.run terminal ambient).2.1⟩,
          (script.run terminal ambient).2.2) ∧
      arrivals script ⟨[], terminal⟩ ambient = script.arrivals terminal ambient := by
  induction script generalizing terminal ambient with
  | done result => exact ⟨rfl, rfl⟩
  | ask request next ih =>
    obtain ⟨hrun, harrivals⟩ := ih (terminal.answer request).1
      (terminal.answer request).2 ambient
    cases request with
    | push _ | terminalPush _ =>
      exact ⟨hrun, congrArg (Request.arrivals _ _ ++ ·) harrivals⟩
    | _ => exact ⟨hrun, harrivals⟩
  | read next ih => exact ih ambient terminal ambient
  | change f next ih => exact ih terminal (f ambient)

/-- A script runs on a stack as on the chain, and the same elements arrive. -/
theorem run_chain (script : Script ω α) (stack : BlockStack) (ambient : ω) :
    stack.chain.run script ambient =
        ((run script stack ambient).1, (run script stack ambient).2.1.chain,
          (run script stack ambient).2.2) ∧
      stack.chain.arrivals script ambient = arrivals script stack ambient := by
  obtain ⟨blocks, terminal⟩ := stack
  induction blocks generalizing α with
  | nil =>
    obtain ⟨hrun, harrivals⟩ := run_terminal script terminal ambient
    rw [hrun, harrivals]
    exact ⟨rfl, rfl⟩
  | cons block blocks ih =>
    obtain ⟨result, last, rest, final, later, hrun, hinner, harrivals⟩ :=
      run_inBlock script block blocks terminal ambient
    obtain ⟨hbelow, hcame⟩ := ih (script.inBlock block)
    rw [hinner] at hbelow
    rw [hrun]
    constructor
    · have hunfold : (chain ⟨block :: blocks, terminal⟩ : Chain ω) =
          .block block (chain ⟨blocks, terminal⟩) := rfl
      simp only [hunfold, Chain.run, hbelow]
      rfl
    · exact hcame.trans harrivals

end BlockStack

theorem BlockStack.isBare_chain (stack : BlockStack) :
    (stack.chain : Chain ω).IsBare := by
  obtain ⟨blocks, terminal⟩ := stack
  induction blocks with
  | nil => trivial
  | cons block blocks ih => exact ih

theorem Chain.IsBare.exists_stack {chain : Chain ω} (h : chain.IsBare) :
    ∃ stack : BlockStack, chain = stack.chain := by
  induction chain with
  | terminal state => exact ⟨⟨[], state⟩, rfl⟩
  | block opened below ih =>
    obtain ⟨⟨blocks, terminal⟩, rfl⟩ := ih h
    exact ⟨⟨opened :: blocks, terminal⟩, rfl⟩
  | transform layer stage below ih => cases h

namespace BlockStack

variable {stack after : BlockStack} {ambient later : ω}

/-- **Induction over a run.**  A relation between the stack, what arrives, and
the stack afterwards holds of a script as soon as it goes through every
request. -/
theorem run_induction {motive : BlockStack → List Arrival → BlockStack → Prop}
    (hrefl : ∀ stack, motive stack [] stack)
    (hstep : ∀ stack request came after,
      motive (stack.answer request).2 came after →
      motive stack (request.arrivals (stack.answer request).1 ++ came) after)
    (script : Script ω α) (stack : BlockStack) (ambient : ω) :
    motive stack (arrivals script stack ambient)
      (run script stack ambient).2.1 := by
  induction script generalizing stack ambient with
  | done => exact hrefl stack
  | ask request next ih => exact hstep stack request _ _ (ih _ _ _)
  | read _ ih => exact ih _ _ _
  | change _ _ ih => exact ih _ _

/-- A buffered terminal keeps what arrives with a request. -/
theorem elements_answer (request : Request) {buffered : Buffered}
    (hbuffered : stack.terminal = .buffered buffered) :
    ∃ next, (stack.answer request).2.terminal = .buffered next ∧
      next.elements.toList = buffered.elements.toList ++
        (request.arrivals (stack.answer request).1).map Arrival.element := by
  have hpush (element : Element) :
      (buffered.push element).2.elements.toList = buffered.elements.toList ++
        (Request.arrivals (.push element) (buffered.push element).1).map
          Arrival.element := by
    cases element with
    | label label =>
      simp only [Buffered.push]
      split <;> simp [Request.arrivals, Arrival.element]
    | _ => simp [Buffered.push, Request.arrivals, Arrival.element]
  have hallocate (kind : Kind) :
      (buffered.allocate kind).2.elements = buffered.elements := by
    simp only [Buffered.allocate]
    split <;> rfl
  obtain ⟨blocks, terminal⟩ := stack
  cases hbuffered
  cases request with
  | push element => exact ⟨(buffered.push element).2, rfl, hpush element⟩
  | terminalPush element =>
    refine ⟨(buffered.push element).2, rfl, (hpush element).trans ?_⟩
    simp only [answer, Terminal.push]
    cases (buffered.push element).1 <;> simp [Request.arrivals, Arrival.element]
  | terminalAllocate kind =>
    exact ⟨(buffered.allocate kind).2, rfl, by simp [Request.arrivals, hallocate]⟩
  | allocate kind =>
    cases blocks with
    | nil =>
      exact ⟨(buffered.allocate kind).2, rfl, by simp [Request.arrivals, hallocate]⟩
    | cons block blocks => exact ⟨buffered, rfl, by simp [Request.arrivals]⟩
  | freshLabel => exact ⟨buffered.freshLabel.2, rfl, by simp [Request.arrivals,
      Buffered.freshLabel]⟩
  | topLocal | terminal | layers =>
    exact ⟨buffered, rfl, by simp [Request.arrivals]⟩

/-- **A buffered terminal keeps what arrives**, and nothing else. -/
theorem elements_run (script : Script ω α) (stack : BlockStack) (ambient : ω)
    {buffered : Buffered} (hbuffered : stack.terminal = .buffered buffered) :
    ∃ final, (run script stack ambient).2.1.terminal = .buffered final ∧
      final.elements.toList = buffered.elements.toList ++
        (arrivals script stack ambient).map Arrival.element := by
  refine run_induction (motive := fun stack came after => ∀ buffered,
    stack.terminal = .buffered buffered → ∃ final,
      after.terminal = .buffered final ∧ final.elements.toList =
        buffered.elements.toList ++ came.map Arrival.element)
    ?_ ?_ script stack ambient buffered hbuffered
  · intro stack buffered hstart
    exact ⟨buffered, hstart, by simp⟩
  · intro stack request came after hrest buffered hstart
    obtain ⟨next, hnext, hone⟩ := elements_answer request hstart
    obtain ⟨final, hfinal, hlast⟩ := hrest next hnext
    exact ⟨final, hfinal, by rw [hlast, hone, List.map_append, List.append_assoc]⟩

/-- The build succeeds on the stack, with a result: what arrives, and the stack
and the ambient state afterwards. -/
structure Yields (stack : BlockStack) (ambient : ω) (build : Build ω α)
    (result : α) (came : List Arrival) (after : BlockStack) (later : ω) :
    Prop where
  run_eq : run build.run stack ambient = (.ok result, after, later)
  arrivals_eq : arrivals build.run stack ambient = came

/-- What a build does that goes on with the result of another one. -/
theorem Yields.of_bind {build : Build ω α} {next : α → Build ω β} {result : β}
    {came : List Arrival}
    (h : stack.Yields ambient (build >>= next) result came after later) :
    ∃ first early middle between late,
      stack.Yields ambient build first early middle between ∧
      middle.Yields between (next first) result late after later ∧
      came = early ++ late := by
  have hrun := h.run_eq
  have harrivals := h.arrivals_eq
  rw [Build.run_bind, run_bind] at hrun
  rw [Build.run_bind, arrivals_bind] at harrivals
  rcases hfirst : run build.run stack ambient with ⟨fault | first, middle, between⟩
  · rw [hfirst] at hrun
    cases hrun
  · rw [hfirst] at hrun harrivals
    exact ⟨first, _, middle, between, _, ⟨hfirst, rfl⟩, ⟨hrun, rfl⟩,
      harrivals.symm⟩

section Primitives

variable {element : Element} {label : Label} {came : List Arrival}

theorem Yields.of_pure {value result : α}
    (h : stack.Yields ambient (pure value) result came after later) :
    result = value ∧ came = [] ∧ after = stack ∧ later = ambient := by
  have hrun := h.run_eq
  cases hrun
  exact ⟨rfl, h.arrivals_eq.symm, rfl, rfl⟩

/-- The stack once the terminal has taken an element that was pushed. -/
def noting (stack : BlockStack) (element : Element) (terminal : Terminal) :
    BlockStack :=
  { blocks := stack.blocks.map (·.note element), terminal }

theorem Yields.of_push
    (h : stack.Yields ambient (Build.push element) () came after later) :
    ∃ terminal, stack.terminal.push element = (.ok (), terminal) ∧
      came = [.through element] ∧ after = stack.noting element terminal ∧
      later = ambient := by
  have hrun := h.run_eq
  have hcame := h.arrivals_eq
  rcases hpush : stack.terminal.push element with ⟨fault | ⟨⟩, terminal⟩
  · simp [Build.push, Script.send, run, answer, hpush] at hrun
  · simp only [Build.push, Script.send, ExceptT.run_mk, run, arrivals, answer,
      hpush, Prod.mk.injEq, true_and] at hrun hcame
    obtain ⟨rfl, rfl⟩ := hrun
    exact ⟨terminal, rfl, hcame.symm, rfl, rfl⟩

theorem Yields.of_terminalPush
    (h : stack.Yields ambient (Build.terminalPush element) () came after later) :
    ∃ terminal, stack.terminal.push element = (.ok (), terminal) ∧
      came = [.past element] ∧ after = { stack with terminal } ∧
      later = ambient := by
  have hrun := h.run_eq
  have hcame := h.arrivals_eq
  rcases hpush : stack.terminal.push element with ⟨fault | ⟨⟩, terminal⟩
  · simp [Build.terminalPush, Script.send, run, answer, hpush] at hrun
  · simp only [Build.terminalPush, Script.send, ExceptT.run_mk, run, arrivals,
      answer, hpush, Prod.mk.injEq, true_and] at hrun hcame
    obtain ⟨rfl, rfl⟩ := hrun
    exact ⟨terminal, rfl, hcame.symm, rfl, rfl⟩

theorem Yields.of_freshLabel
    (h : stack.Yields ambient Build.freshLabel label came after later) :
    label = stack.terminal.freshLabel.1 ∧ came = [] ∧
      after = { stack with terminal := stack.terminal.freshLabel.2 } ∧
      later = ambient := by
  have hrun := h.run_eq
  cases hrun
  exact ⟨rfl, h.arrivals_eq.symm, rfl, rfl⟩

theorem Yields.of_topLocal {top : Slot}
    (h : stack.Yields ambient Build.topLocal top came after later) :
    top = stack.topLocal ∧ came = [] ∧ after = stack ∧ later = ambient := by
  have hrun := h.run_eq
  cases hrun
  exact ⟨rfl, h.arrivals_eq.symm, rfl, rfl⟩

theorem Yields.of_terminal {terminal : Terminal}
    (h : stack.Yields ambient Build.terminal terminal came after later) :
    terminal = stack.terminal ∧ came = [] ∧ after = stack ∧ later = ambient := by
  have hrun := h.run_eq
  cases hrun
  exact ⟨rfl, h.arrivals_eq.symm, rfl, rfl⟩

theorem Yields.of_layers {layers : List Layer}
    (h : stack.Yields ambient Build.layers layers came after later) :
    came = [] ∧ after = stack ∧ later = ambient := by
  have hrun := h.run_eq
  cases hrun
  exact ⟨h.arrivals_eq.symm, rfl, rfl⟩

theorem Yields.of_allocate {kind : Kind} {slot : Slot}
    (h : stack.Yields ambient (Build.allocate kind) slot came after later) :
    came = [] ∧ later = ambient := by
  have hrun := h.run_eq
  simp only [Build.allocate, Script.send, ExceptT.run_mk, run,
    Prod.mk.injEq] at hrun
  obtain ⟨-, -, rfl⟩ := hrun
  exact ⟨h.arrivals_eq.symm, rfl⟩

theorem Yields.of_change {f : ω → ω}
    (h : stack.Yields ambient (Build.change f) () came after later) :
    came = [] ∧ after = stack ∧ later = f ambient := by
  have hrun := h.run_eq
  cases hrun
  exact ⟨h.arrivals_eq.symm, rfl, rfl⟩

end Primitives

section Blocks

variable {block last : Block} {start breakLabel : Label} {came : List Arrival}

theorem Yields.of_within {body : Build ω α} {result : α}
    (h : stack.Yields ambient (Build.within block body) (result, last) came after
      later) :
    Yields ⟨block :: stack.blocks, stack.terminal⟩ ambient body result came
      ⟨last :: after.blocks, after.terminal⟩ later := by
  obtain ⟨answer, block', rest, final, after', hrun, hinner, harrivals⟩ :=
    run_inBlock body.run block stack.blocks stack.terminal ambient
  have hwhole := h.run_eq
  have hcame := h.arrivals_eq
  -- leaving the block only looks at the result
  change run ((body.run.inBlock block).bind _) stack ambient = _ at hwhole
  change arrivals ((body.run.inBlock block).bind _) stack ambient = came at hcame
  rw [run_bind, hinner] at hwhole
  rw [arrivals_bind, hinner, harrivals] at hcame
  cases answer with
  | error fault => cases hwhole
  | ok value =>
    cases hwhole
    exact ⟨hrun, (List.append_nil _).symm.trans hcame⟩

/-- Opening a block puts its start label. -/
theorem Yields.of_openBlockAt
    (h : stack.Yields ambient (Build.openBlockAt start breakLabel) block came after
      later) :
    ∃ terminal,
      stack.terminal.freshLabel.2.push (.label start) = (.ok (), terminal) ∧
      block =
        { startLabel := start, stopLabel := stack.terminal.freshLabel.1, breakLabel
          topLocal := topLocal ⟨stack.blocks, stack.terminal.freshLabel.2⟩
          terminalTop := stack.terminal.freshLabel.2.topLocal } ∧
      came = [.past (.label start)] ∧ after = { stack with terminal } ∧
      later = ambient := by
  obtain ⟨_, _, _, _, _, hstop, h₁, rfl⟩ := h.of_bind
  obtain ⟨rfl, rfl, rfl, rfl⟩ := hstop.of_freshLabel
  obtain ⟨_, _, _, _, _, htop, h₂, rfl⟩ := h₁.of_bind
  obtain ⟨rfl, rfl, rfl, rfl⟩ := htop.of_topLocal
  obtain ⟨_, _, _, _, _, hterminal, h₃, rfl⟩ := h₂.of_bind
  obtain ⟨rfl, rfl, rfl, rfl⟩ := hterminal.of_terminal
  obtain ⟨_, _, _, _, _, hpush, h₄, rfl⟩ := h₃.of_bind
  obtain ⟨terminal, htaken, rfl, rfl, rfl⟩ := hpush.of_terminalPush
  obtain ⟨rfl, rfl, rfl, rfl⟩ := h₄.of_pure
  exact ⟨terminal, htaken, rfl, rfl, rfl, rfl⟩

/-- Closing a block puts its stop label. -/
theorem Yields.of_closeBlock {summary : BlockSummary}
    (h : stack.Yields ambient (Build.closeBlock block) summary came after later) :
    ∃ terminal,
      stack.terminal.push (.label block.stopLabel) = (.ok (), terminal) ∧
      summary = block.summary ∧ came = [.past (.label block.stopLabel)] ∧
      after = { stack with terminal } ∧ later = ambient := by
  obtain ⟨_, _, _, _, _, hpush, h₁, rfl⟩ := h.of_bind
  obtain ⟨terminal, htaken, rfl, rfl, rfl⟩ := hpush.of_terminalPush
  obtain ⟨found, _, _, _, _, hfound, h₂, rfl⟩ := h₁.of_bind
  obtain ⟨rfl, rfl, rfl, rfl⟩ := hfound.of_terminal
  by_cases hquiet : found.topLocal = block.terminalTop
  · simp only [if_pos hquiet] at h₂
    obtain ⟨rfl, rfl, rfl, rfl⟩ := h₂.of_pure
    exact ⟨found, htaken, rfl, rfl, rfl, rfl⟩
  · simp only [if_neg hquiet] at h₂
    have hfail := h₂.run_eq
    cases hfail

end Blocks

end BlockStack

end JvmMethod
