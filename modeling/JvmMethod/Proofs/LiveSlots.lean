import JvmMethod.Proofs.ChainRequests
import JvmMethod.Proofs.SlotCounters

/-!
# Live slots

Builders are stacked over a terminal and taken away again: blocks are opened,
and closed or dropped, and transforms are put over what is there.  Slots are
taken from the innermost builder only, and the transforms take none.

What that does to the local slots of the chain is little: nothing at all, or
what happens to a stack of counters.

* `Chain.serves_run`: what is done with the innermost builder takes slots from
  its counter, and changes no other.
* `Scopes.step_moves`: what one step does to the slots of the chain.
* `Scopes.live_slots_apart`: slots that are live at the same time are apart, and
  a block that is left gives its slots back.
-/

namespace JvmMethod

variable {ω α : Type}

theorem Terminal.allocate_eq_handOut (terminal : Terminal) (kind : Kind) :
    (terminal.allocate kind).1 = (handOut terminal.topLocal kind).1 ∧
      (terminal.allocate kind).2.topLocal = (handOut terminal.topLocal kind).2 := by
  cases terminal with
  | direct state =>
    simp only [allocate, Direct.allocate, handOut, topLocal]
    cases claimSlot state.topLocal kind <;> exact ⟨rfl, rfl⟩
  | buffered state =>
    simp only [allocate, Buffered.allocate, handOut, topLocal]
    cases claimSlot state.topLocal kind <;> exact ⟨rfl, rfl⟩

theorem Block.allocate_eq_handOut (block : Block) (kind : Kind) :
    (block.allocate kind).1 = (handOut block.topLocal kind).1 ∧
      (block.allocate kind).2.topLocal = (handOut block.topLocal kind).2 := by
  simp only [allocate, handOut]
  cases claimSlot block.topLocal kind <;> exact ⟨rfl, rfl⟩

namespace Chain

/-- The next free slot of each builder, the innermost first. -/
def tops : Chain ω → List Slot
  | .terminal state => [state.topLocal]
  | .block opened below => opened.topLocal :: below.tops
  | .transform _ _ below => below.topLocal :: below.tops

/-- The counters of the open blocks and of the terminal, the innermost first. -/
def counters (chain : Chain ω) : List Slot :=
  chain.outline.reduceOption

/-- No transform of the chain takes slots. -/
def KeepsSlots : Chain ω → Prop
  | .terminal _ => True
  | .block _ below => below.KeepsSlots
  | .transform _ stage below =>
      (∀ element, (stage.accept element).run.Asks Request.KeepsSlots) ∧
        below.KeepsSlots

/-- Above the builders with the outline `base` there are others, and the lowest
of those is a block. -/
def StandsOver (chain : Chain ω) (base : List (Option Slot)) : Prop :=
  ∃ upper top, chain.outline = upper ++ some top :: base

section Outline

variable {chain other below : Chain ω} {base : List (Option Slot)}

theorem outline_ne_nil (chain : Chain ω) : chain.outline ≠ [] := by
  cases chain <;> simp [outline]

theorem exists_counters (chain : Chain ω) :
    ∃ outer, chain.counters = chain.topLocal :: outer := by
  induction chain with
  | terminal state => exact ⟨[], rfl⟩
  | block opened below _ => exact ⟨below.counters, rfl⟩
  | transform _ _ _ ih => exact ih

theorem exists_tops (chain : Chain ω) :
    ∃ outer, chain.tops = chain.topLocal :: outer := by
  cases chain <;> exact ⟨_, rfl⟩

theorem length_tops (chain : Chain ω) :
    chain.tops.length = chain.outline.length := by
  induction chain with
  | terminal _ => rfl
  | block _ _ ih => exact congrArg (· + 1) ih
  | transform _ _ _ ih => exact congrArg (· + 1) ih

theorem topLocal_of_outline (h : chain.outline = other.outline) :
    chain.topLocal = other.topLocal := by
  obtain ⟨outer, hchain⟩ := chain.exists_counters
  obtain ⟨outer', hother⟩ := other.exists_counters
  have hcounters : chain.counters = other.counters :=
    congrArg List.reduceOption h
  rw [hchain, hother] at hcounters
  exact (List.cons.inj hcounters).1

/-- All next free slots can be read off the outline. -/
theorem tops_of_outline (h : chain.outline = other.outline) :
    chain.tops = other.tops := by
  induction chain generalizing other with
  | terminal state =>
    cases other with
    | terminal _ => simpa [outline, tops] using h
    | block _ below => simp [outline, below.outline_ne_nil.symm] at h
    | transform _ _ _ => simp [outline] at h
  | block opened under ih =>
    cases other with
    | terminal _ => simp [outline, under.outline_ne_nil] at h
    | block _ _ =>
      simp only [outline, List.cons.injEq, Option.some.injEq] at h
      simp only [tops, h.1, ih h.2]
    | transform _ _ _ => simp [outline] at h
  | transform _ _ under ih =>
    cases other with
    | terminal _ => simp [outline] at h
    | block _ _ => simp [outline] at h
    | transform _ _ _ =>
      have hbelow := (List.cons.inj h).2
      simp only [tops, topLocal_of_outline hbelow, ih hbelow]

theorem mem_counters_of_mem_tops {top : Slot} (h : top ∈ chain.tops) :
    top ∈ chain.counters := by
  induction chain with
  | terminal _ => exact h
  | block _ _ ih =>
    rcases List.mem_cons.1 h with rfl | hbelow
    · exact List.mem_cons_self
    · exact List.mem_cons_of_mem _ (ih hbelow)
  | transform _ _ below ih =>
    rcases List.mem_cons.1 h with rfl | hbelow
    · obtain ⟨outer, hcounters⟩ := below.exists_counters
      change below.topLocal ∈ below.counters
      rw [hcounters]
      exact List.mem_cons_self
    · exact ih hbelow

theorem sorted_tops (h : chain.counters.Pairwise (· ≥ ·)) :
    chain.tops.Pairwise (· ≥ ·) := by
  induction chain with
  | terminal _ => simp [tops]
  | block opened below ih =>
    obtain ⟨hle, hbelow⟩ := List.pairwise_cons.1 h
    exact List.pairwise_cons.2
      ⟨fun top hmem => hle top (mem_counters_of_mem_tops hmem), ih hbelow⟩
  | transform _ _ below ih =>
    have hbelow := ih h
    refine List.pairwise_cons.2 ⟨fun top hmem => ?_, hbelow⟩
    obtain ⟨outer, htops⟩ := below.exists_tops
    rw [htops] at hbelow hmem
    rcases List.mem_cons.1 hmem with rfl | houter
    · exact UInt16.le_refl _
    · exact (List.pairwise_cons.1 hbelow).1 top houter

theorem StandsOver.length_lt (h : chain.StandsOver base) :
    base.length < chain.outline.length := by
  obtain ⟨upper, top, heq⟩ := h
  rw [heq, List.length_append, List.length_cons]
  omega

/-- The uppermost builder goes: either it was the block, or the block is still
there. -/
theorem StandsOver.of_cons {counter? : Option Slot}
    (h : chain.StandsOver base) (heq : chain.outline = counter? :: below.outline) :
    below.StandsOver base ∨ below.outline = base := by
  obtain ⟨upper, top, hover⟩ := h
  rw [heq] at hover
  cases upper with
  | nil => exact .inr (List.cons.inj hover).2
  | cons _ upper => exact .inl ⟨upper, top, (List.cons.inj hover).2⟩

/-- A slot that is taken is taken above the base. -/
theorem StandsOver.allocate (h : chain.StandsOver base) (kind : Kind) :
    (chain.allocate kind).2.StandsOver base := by
  induction chain with
  | terminal state =>
    obtain ⟨upper, top, heq⟩ := h
    cases upper with
    | nil =>
      have hbase : base = [] := (List.cons.inj heq).2.symm
      exact ⟨[], (state.allocate kind).2.topLocal, by rw [hbase]; rfl⟩
    | cons _ upper => simp [outline] at heq
  | block opened below ih =>
    obtain ⟨upper, top, heq⟩ := h
    cases upper with
    | nil =>
      have hbelow : below.outline = base := (List.cons.inj heq).2
      exact ⟨[], (opened.allocate kind).2.topLocal, by rw [← hbelow]; rfl⟩
    | cons _ upper =>
      have hbelow : below.outline = upper ++ some top :: base :=
        (List.cons.inj heq).2
      exact ⟨some (opened.allocate kind).2.topLocal :: upper, top,
        congrArg (some (opened.allocate kind).2.topLocal :: ·) hbelow⟩
  | transform layer stage below ih =>
    obtain ⟨upper, top, heq⟩ := h
    cases upper with
    | nil => cases (List.cons.inj heq).1
    | cons _ upper =>
      obtain ⟨upper', top', heq'⟩ := ih ⟨upper, top, (List.cons.inj heq).2⟩
      exact ⟨none :: upper', top', congrArg (none :: ·) heq'⟩

end Outline

/-- Taking a slot moves the innermost counter. -/
theorem allocate_trace (chain : Chain ω) (kind : Kind) :
    SlotTrace chain.counters [.allocated kind (chain.allocate kind).1]
      (chain.allocate kind).2.counters := by
  induction chain with
  | terminal state =>
    obtain ⟨hanswer, htop⟩ := state.allocate_eq_handOut kind
    have hcounters : (allocate (.terminal state : Chain ω) kind).2.counters =
        [(handOut state.topLocal kind).2] := congrArg (fun top => [top]) htop
    have hfirst : (allocate (.terminal state : Chain ω) kind).1 =
        (handOut state.topLocal kind).1 := hanswer
    rw [hfirst, hcounters]
    exact .allocated (.nil _)
  | block opened below _ =>
    obtain ⟨hanswer, htop⟩ := opened.allocate_eq_handOut kind
    have hcounters : (allocate (.block opened below) kind).2.counters =
        (handOut opened.topLocal kind).2 :: below.counters :=
      congrArg (· :: below.counters) htop
    have hfirst : (allocate (.block opened below) kind).1 =
        (handOut opened.topLocal kind).1 := hanswer
    rw [hfirst, hcounters]
    exact .allocated (.nil _)
  | transform layer stage below ih => exact ih

end Chain

/-- What a request tells of local slots, by how it is answered. -/
def Request.slotEvents : (request : Request) → request.Answer → List SlotEvent
  | .allocate kind, answer => [.allocated kind answer]
  | _, _ => []

theorem Terminal.topLocal_answer {request : Request} (h : request.KeepsSlots)
    (terminal : Terminal) :
    (terminal.answer request).2.topLocal = terminal.topLocal := by
  cases request with
  | push element | terminalPush element => exact terminal.topLocal_push element
  | freshLabel => exact terminal.topLocal_freshLabel
  | topLocal | terminal | layers => rfl
  | allocate _ | terminalAllocate _ => cases h

namespace Script

variable {script : Script ω α}

theorem topLocal_run (h : script.Asks Request.KeepsSlots) (terminal : Terminal)
    (ambient : ω) :
    (script.run terminal ambient).2.1.topLocal = terminal.topLocal := by
  induction script generalizing terminal ambient with
  | done => rfl
  | ask request next ih =>
    exact (ih _ (h.2 _) _ _).trans (terminal.topLocal_answer h.1)
  | read _ ih => exact ih _ (h _) _ _
  | change _ _ ih => exact ih h _ _

theorem topLocal_inBlock (h : script.Asks Request.KeepsSlots) (block : Block) :
    (script.inBlock block).Ensures fun (_, last) =>
      last.topLocal = block.topLocal := by
  have hnote : ∀ (last : Block) element answer, last.topLocal = block.topLocal →
      (last.noteAnswer element answer).topLocal = block.topLocal := by
    intro last element answer hlast
    rwa [Block.topLocal_noteAnswer]
  exact h.ensures_inBlock hnote (fun _ _ hallowed => hallowed.elim) rfl

end Script

namespace Chain

/-- What happens to the slots of the innermost builder while a script is run. -/
def slotEvents : Script ω α → Chain ω → ω → List SlotEvent
  | .done _, _, _ => []
  | .ask request next, chain, ambient =>
      let after := chain.run (.send request) ambient
      request.slotEvents after.1 ++ slotEvents (next after.1) after.2.1 after.2.2
  | .read next, chain, ambient => slotEvents (next ambient) chain ambient
  | .change f next, chain, ambient => slotEvents next chain (f ambient)

/-- What answering requests does to the slots of a chain: each time nothing at
all, or a slot is taken. -/
inductive Serves : Chain ω → List SlotEvent → Chain ω → Prop where
  | done (chain : Chain ω) : Serves chain [] chain
  | keep {chain middle last : Chain ω} {events : List SlotEvent}
      (hsame : middle.outline = chain.outline)
      (tail : Serves middle events last) : Serves chain events last
  | allocate {chain last : Chain ω} {events : List SlotEvent} (kind : Kind)
      (tail : Serves (chain.allocate kind).2 events last) :
      Serves chain (.allocated kind (chain.allocate kind).1 :: events) last

variable {chain last : Chain ω} {events : List SlotEvent}
  {base : List (Option Slot)} {script : Script ω α}

theorem Serves.trace (h : Serves chain events last) :
    SlotTrace chain.counters events last.counters := by
  induction h with
  | done chain => exact .nil _
  | @keep chain middle _ _ hsame _ ih =>
    have hcounters : middle.counters = chain.counters :=
      congrArg List.reduceOption hsame
    rwa [hcounters] at ih
  | allocate kind _ ih => exact (allocate_trace _ kind).append ih

theorem Serves.standsOver (h : Serves chain events last)
    (hover : chain.StandsOver base) : last.StandsOver base := by
  induction h with
  | done chain => exact hover
  | keep hsame _ ih =>
    obtain ⟨upper, top, heq⟩ := hover
    exact ih ⟨upper, top, hsame.trans heq⟩
  | allocate kind _ ih => exact ih (hover.allocate kind)

/-- What takes no slots leaves all counters as they are. -/
theorem outline_run (hchain : chain.KeepsSlots)
    (h : script.Asks Request.KeepsSlots) (ambient : ω) :
    (chain.run script ambient).2.1.outline = chain.outline := by
  induction chain generalizing α with
  | terminal state =>
    exact congrArg (fun top => [some top]) (Script.topLocal_run h state ambient)
  | block opened below ih =>
    have hblock := below.run_ensures (Script.topLocal_inBlock h opened) ambient
    have hbelow := ih hchain (h.inBlock opened)
    simp only [run, outline, hbelow]
    exact congrArg (some · :: below.outline) hblock
  | transform layer stage below ih =>
    obtain ⟨hstage, hrest⟩ := hchain
    exact congrArg (none :: ·) (ih hrest (h.through layer hstage))

/-- The transforms of a chain stay what they are. -/
theorem keepsSlots_run (hchain : chain.KeepsSlots) (script : Script ω α)
    (ambient : ω) : (chain.run script ambient).2.1.KeepsSlots := by
  induction chain generalizing α with
  | terminal state => trivial
  | block opened below ih => exact ih hchain (script.inBlock opened)
  | transform layer stage below ih => exact ⟨hchain.1, ih hchain.2 _⟩

/-- **What is done with the innermost builder** takes slots from it, one after
the other, and does nothing else to the slots of the chain. -/
theorem serves_run (hchain : chain.KeepsSlots)
    (h : script.Asks Request.KeepsToLayers) (ambient : ω) :
    Serves chain (slotEvents script chain ambient)
      (chain.run script ambient).2.1 := by
  induction script generalizing chain ambient with
  | done result =>
    rw [run_done]
    exact .done chain
  | ask request next ih =>
    obtain ⟨hrequest, hnext⟩ := h
    have hafter := keepsSlots_run hchain (.send request) ambient
    have htail := ih _ hafter (hnext (chain.run (.send request) ambient).1)
      (chain.run (.send request) ambient).2.2
    rw [run_ask]
    cases request with
    | allocate kind =>
      change Serves chain
        (.allocated kind (chain.run (.send (.allocate kind)) ambient).1 :: _) _
      have hallocate := chain.run_allocate ambient kind
      rw [hallocate] at htail ⊢
      exact .allocate kind htail
    | terminalAllocate _ => cases hrequest
    | _ =>
      refine .keep (outline_run hchain ?_ ambient) htail
      exact ⟨trivial, fun _ => trivial⟩
  | read next ih =>
    rw [run_read]
    exact ih ambient hchain (h ambient) ambient
  | change f next ih =>
    rw [run_change]
    exact ih hchain h (f ambient)

end Chain

/-- The builders that are stacked over a terminal, and the ambient state. -/
structure Scopes (ω : Type) where
  chain : Chain ω
  ambient : ω

/-- What is done with the builders. -/
inductive ScopeStep (ω : Type) where
  /-- Does anything with the innermost builder, whether or not it succeeds. -/
  | perform (body : Build ω Unit)
  /-- Opens a block, with a start label that was made ahead of time or with a
  new one. -/
  | openBlock (startLabel? : Option Label) (breakLabel : Label)
  | closeBlock
  /-- Leaves a block without closing it. -/
  | dropBlock
  /-- Puts a transform over the innermost builder.  What it does at its start
  and at its end is done with that builder, before and after. -/
  | enter (layer : Layer) (stage : Transform ω)
  /-- Takes a transform away. -/
  | leave

/-- Slots are taken from the innermost builder only. -/
def ScopeStep.IsLocal : ScopeStep ω → Prop
  | .perform body => body.run.Asks Request.KeepsToLayers
  | .enter _ stage =>
      ∀ element, (stage.accept element).run.Asks Request.KeepsSlots
  | _ => True

namespace Scopes

/-- A terminal with nothing stacked over it. -/
def start (terminal : Terminal) (ambient : ω) : Scopes ω where
  chain := .terminal terminal
  ambient

/-- The next free slot of each builder, the innermost first. -/
def tops (scopes : Scopes ω) : List Slot :=
  scopes.chain.tops

/-- Takes a step, and tells what happens to local slots.  A block can be left
only when it is the innermost builder, and a transform likewise. -/
def step (scopes : Scopes ω) : ScopeStep ω → List SlotEvent × Scopes ω
  | .perform body =>
      let (_, chain, ambient) := scopes.chain.run body.run scopes.ambient
      (Chain.slotEvents body.run scopes.chain scopes.ambient, { chain, ambient })
  | .openBlock startLabel? breakLabel =>
      match scopes.chain.run (Build.openBlockFrom startLabel? breakLabel).run
          scopes.ambient with
      | (.ok block, below, ambient) =>
          ([.opened], { chain := .block block below, ambient })
      | (.error _, chain, ambient) => ([], { chain, ambient })
  | .closeBlock =>
      match scopes.chain with
      | .block block below =>
          let (_, chain, ambient) :=
            below.run (Build.closeBlock block).run scopes.ambient
          ([.left], { chain, ambient })
      | _ => ([], scopes)
  | .dropBlock =>
      match scopes.chain with
      | .block _ below => ([.left], { scopes with chain := below })
      | _ => ([], scopes)
  | .enter layer stage =>
      ([], { scopes with chain := .transform layer stage scopes.chain })
  | .leave =>
      match scopes.chain with
      | .transform _ _ below => ([], { scopes with chain := below })
      | _ => ([], scopes)

/-- Takes steps one after the other. -/
def run (scopes : Scopes ω) : List (ScopeStep ω) → List SlotEvent × Scopes ω
  | [] => ([], scopes)
  | step :: steps =>
      let (events, next) := scopes.step step
      let (later, last) := next.run steps
      (events ++ later, last)

/-- A block is opened over the builders, it is open during all of `body`, and
then it is left. -/
structure Encloses (scopes : Scopes ω) (opening : ScopeStep ω)
    (body : List (ScopeStep ω)) (ending : ScopeStep ω) : Prop where
  opens : ∃ startLabel? breakLabel, opening = .openBlock startLabel? breakLabel
  stays : ∀ early late, body = early ++ late →
    scopes.tops.length < (scopes.run (opening :: early)).2.tops.length
  leaves : (scopes.run (opening :: (body ++ [ending]))).2.tops.length =
    scopes.tops.length

end Scopes

namespace Chain

/-- What a step does to the slots of a chain. -/
inductive Moves : Chain ω → List SlotEvent → Chain ω → Prop where
  | serve {chain next : Chain ω} {events : List SlotEvent}
      (hserves : Serves chain events next) : Moves chain events next
  | openBlock {chain below : Chain ω} {block : Block}
      (hsame : below.outline = chain.outline)
      (htop : block.topLocal = chain.topLocal) :
      Moves chain [.opened] (.block block below)
  | leaveBlock {below next : Chain ω} {block : Block}
      (hsame : next.outline = below.outline) :
      Moves (.block block below) [.left] next
  | enter (chain : Chain ω) (layer : Layer) (stage : Transform ω) :
      Moves chain [] (.transform layer stage chain)
  | leave (below : Chain ω) (layer : Layer) (stage : Transform ω) :
      Moves (.transform layer stage below) [] below

variable {chain next : Chain ω} {events : List SlotEvent}
  {base : List (Option Slot)}

theorem Moves.trace (h : Moves chain events next) :
    SlotTrace chain.counters events next.counters := by
  cases h with
  | serve hserves => exact hserves.trace
  | @openBlock _ below block hsame htop =>
    obtain ⟨outer, hcounters⟩ := chain.exists_counters
    have hbelow : below.counters = chain.counters :=
      congrArg List.reduceOption hsame
    have hnext : (Chain.block block below).counters =
        chain.topLocal :: chain.topLocal :: outer := by
      change block.topLocal :: below.counters = _
      rw [hbelow, hcounters, htop]
    rw [hnext, hcounters]
    exact .opened (.nil _)
  | @leaveBlock below next block hsame =>
    obtain ⟨outer, hcounters⟩ := below.exists_counters
    have hnext : next.counters = below.counters := congrArg List.reduceOption hsame
    have hblock : (Chain.block block below).counters =
        block.topLocal :: below.topLocal :: outer := by
      change block.topLocal :: below.counters = _
      rw [hcounters]
    rw [hnext, hblock, hcounters]
    exact .left (.nil _)
  | enter | leave => exact .nil _

/-- A block that is open stays open, or its step is the one that leaves it. -/
theorem Moves.standsOver (h : Moves chain events next)
    (hover : chain.StandsOver base) :
    next.StandsOver base ∨ next.outline = base := by
  cases h with
  | serve hserves => exact .inl (hserves.standsOver hover)
  | @openBlock _ below block hsame htop =>
    obtain ⟨upper, top, heq⟩ := hover
    exact .inl ⟨some block.topLocal :: upper, top,
      congrArg (some block.topLocal :: ·) (hsame.trans heq)⟩
  | @leaveBlock below _ block hsame =>
    have hbelow : (Chain.block block below).outline =
        some block.topLocal :: next.outline := by rw [hsame]; rfl
    exact hover.of_cons hbelow
  | enter =>
    obtain ⟨upper, top, heq⟩ := hover
    exact .inl ⟨none :: upper, top, congrArg (none :: ·) heq⟩
  | leave => exact hover.of_cons rfl

end Chain

namespace Scopes

variable {scopes : Scopes ω} {step : ScopeStep ω} {steps body : List (ScopeStep ω)}
  {base : List (Option Slot)}

/-- **What a step does** to the slots of the builders. -/
theorem step_moves (hchain : scopes.chain.KeepsSlots) (hstep : step.IsLocal) :
    Chain.Moves scopes.chain (scopes.step step).1 (scopes.step step).2.chain ∧
      (scopes.step step).2.chain.KeepsSlots := by
  obtain ⟨chain, ambient⟩ := scopes
  cases step with
  | perform body =>
    exact ⟨.serve (chain.serves_run hchain hstep ambient),
      chain.keepsSlots_run hchain body.run ambient⟩
  | openBlock startLabel? breakLabel =>
    obtain ⟨answer, state, hrun, hopens⟩ :=
      chain.run_openBlockFrom ambient startLabel? breakLabel
    have hsame := Chain.outline_withBottom hopens.state_topLocal
    have hkeeps := chain.keepsSlots_run hchain
      (Build.openBlockFrom startLabel? breakLabel).run ambient
    rw [hrun] at hkeeps
    simp only [Scopes.step, hrun]
    cases answer with
    | error fault => exact ⟨.serve (.keep hsame (.done _)), hkeeps⟩
    | ok block => exact ⟨.openBlock hsame (hopens.block_topLocal block rfl), hkeeps⟩
  | closeBlock =>
    cases chain with
    | block block below =>
      obtain ⟨answer, state, hrun, hstate, -⟩ := below.run_closeBlock ambient block
      have hkeeps := below.keepsSlots_run hchain (Build.closeBlock block).run ambient
      rw [hrun] at hkeeps
      simp only [Scopes.step, hrun]
      exact ⟨.leaveBlock (Chain.outline_withBottom hstate), hkeeps⟩
    | _ => exact ⟨.serve (.done _), hchain⟩
  | dropBlock =>
    cases chain with
    | block block below => exact ⟨.leaveBlock rfl, hchain⟩
    | _ => exact ⟨.serve (.done _), hchain⟩
  | enter layer stage => exact ⟨.enter chain layer stage, hstep, hchain⟩
  | leave =>
    cases chain with
    | transform layer stage below => exact ⟨.leave below layer stage, hchain.2⟩
    | _ => exact ⟨.serve (.done _), hchain⟩

/-- What steps do to the counters of the builders. -/
theorem run_trace (hchain : scopes.chain.KeepsSlots)
    (hsteps : ∀ step ∈ steps, step.IsLocal) :
    SlotTrace scopes.chain.counters (scopes.run steps).1
        (scopes.run steps).2.chain.counters ∧
      (scopes.run steps).2.chain.KeepsSlots := by
  induction steps generalizing scopes with
  | nil => exact ⟨.nil _, hchain⟩
  | cons step steps ih =>
    obtain ⟨hfirst, hrest⟩ := List.forall_mem_cons.1 hsteps
    obtain ⟨hmoves, hkeeps⟩ := step_moves hchain hfirst
    obtain ⟨htrace, hlast⟩ := ih hkeeps hrest
    exact ⟨hmoves.trace.append htrace, hlast⟩

theorem run_append (scopes : Scopes ω) (early late : List (ScopeStep ω)) :
    scopes.run (early ++ late) =
      ((scopes.run early).1 ++ ((scopes.run early).2.run late).1,
        ((scopes.run early).2.run late).2) := by
  induction early generalizing scopes with
  | nil => rfl
  | cons step early ih => simp [run, ih]

theorem length_tops_eq (scopes : Scopes ω) :
    scopes.tops.length = scopes.chain.outline.length :=
  scopes.chain.length_tops

/-- Opening a block puts it over what is there, or fails. -/
theorem step_openBlock (scopes : Scopes ω) (startLabel? : Option Label)
    (breakLabel : Label) :
    let opened := (scopes.step (.openBlock startLabel? breakLabel)).2.chain
    opened.StandsOver scopes.chain.outline ∨
      opened.outline = scopes.chain.outline := by
  obtain ⟨answer, state, hrun, hopens⟩ :=
    scopes.chain.run_openBlockFrom scopes.ambient startLabel? breakLabel
  have hsame := Chain.outline_withBottom hopens.state_topLocal
  simp only [step, hrun]
  cases answer with
  | error fault => exact .inr hsame
  | ok block =>
    exact .inl ⟨[], block.topLocal, congrArg (some block.topLocal :: ·) hsame⟩

/-- A block that is open is still there as long as there are more builders than
below it. -/
theorem run_standsOver (hchain : scopes.chain.KeepsSlots)
    (hsteps : ∀ step ∈ steps, step.IsLocal)
    (hover : scopes.chain.StandsOver base)
    (hstays : ∀ early late, steps = early ++ late →
      base.length < (scopes.run early).2.tops.length) :
    (scopes.run steps).2.chain.StandsOver base := by
  induction steps generalizing scopes with
  | nil => exact hover
  | cons step steps ih =>
    obtain ⟨hfirst, hrest⟩ := List.forall_mem_cons.1 hsteps
    obtain ⟨hmoves, hkeeps⟩ := step_moves hchain hfirst
    rcases hmoves.standsOver hover with hnext | hleft
    · refine ih hkeeps hrest hnext fun early late hsplit => ?_
      exact hstays (step :: early) late (congrArg (step :: ·) hsplit)
    · have hlonger := hstays [step] steps rfl
      have hsame : (scopes.run [step]).2.tops.length = base.length := by
        rw [length_tops_eq, ← hleft]
        rfl
      omega

/-- **A block that is left gives its slots back**: the builders below it hand
out the slots that they would have handed out before. -/
theorem Encloses.outline_eq {opening ending : ScopeStep ω}
    (h : scopes.Encloses opening body ending)
    (hchain : scopes.chain.KeepsSlots)
    (hsteps : ∀ step ∈ opening :: (body ++ [ending]), step.IsLocal) :
    (scopes.run (opening :: (body ++ [ending]))).2.chain.outline =
      scopes.chain.outline := by
  obtain ⟨startLabel?, breakLabel, rfl⟩ := h.opens
  obtain ⟨hopening, hinside⟩ := List.forall_mem_cons.1 hsteps
  obtain ⟨hbody, hending⟩ := List.forall_mem_append.1 hinside
  have hopened := step_moves hchain hopening
  have hopen : (scopes.step (.openBlock startLabel? breakLabel)).2.chain.StandsOver
      scopes.chain.outline := by
    refine (scopes.step_openBlock startLabel? breakLabel).resolve_right fun hsame => ?_
    have hlonger := h.stays [] body rfl
    rw [length_tops_eq, length_tops_eq] at hlonger
    have hlength := congrArg List.length hsame
    exact absurd hlonger (by simp only [run]; omega)
  have hlast := run_standsOver hopened.2 hbody hopen fun early late hsplit => by
    rw [← length_tops_eq]
    exact h.stays early late hsplit
  have hkeeps := (run_trace hopened.2 hbody).2
  have hmoves := (step_moves hkeeps (hending ending List.mem_cons_self)).1
  have hleaves := h.leaves
  have hrun : (scopes.run
      (.openBlock startLabel? breakLabel :: (body ++ [ending]))).2 =
      (((scopes.step (.openBlock startLabel? breakLabel)).2.run body).2.step
        ending).2 := by
    simp only [run, run_append]
  rw [hrun, length_tops_eq, length_tops_eq] at hleaves
  rw [hrun]
  refine (hmoves.standsOver hlast).resolve_left fun hover => ?_
  have hlonger := hover.length_lt
  omega

/-- From the terminal on, the slots that are handed out are stacked. -/
theorem run_stacked (terminal : Terminal) (ambient : ω)
    (hsteps : ∀ step ∈ steps, step.IsLocal) :
    Stacked terminal.topLocal ((start terminal ambient).run steps).2.chain.counters
      (((start terminal ambient).run steps).1.foldl SlotEvent.note [[]]) := by
  have hstart : Stacked terminal.topLocal (start terminal ambient).chain.counters
      [[]] := .terminal (.nil terminal.topLocal)
  exact ((start terminal ambient).run_trace trivial hsteps).1.stacked hstart

/-- Where the counters are the same, the same calls are answered with the same
slots. -/
theorem run_unique {other : Scopes ω} {sibling : List (ScopeStep ω)}
    (hsame : other.chain.outline = scopes.chain.outline)
    (hother : other.chain.KeepsSlots) (hchain : scopes.chain.KeepsSlots)
    (hsibling : ∀ step ∈ sibling, step.IsLocal)
    (hsteps : ∀ step ∈ steps, step.IsLocal)
    (hcalls : (other.run sibling).1.map SlotEvent.call =
      (scopes.run steps).1.map SlotEvent.call) :
    (other.run sibling).1 = (scopes.run steps).1 := by
  have htrace := (run_trace hother hsibling).1
  have hcounters : other.chain.counters = scopes.chain.counters :=
    congrArg List.reduceOption hsame
  rw [hcounters] at htrace
  exact (run_trace hchain hsteps).1.unique htrace hcalls

/-- **Live slots are apart.**  Whatever is stacked over a terminal and taken
away again, as long as slots are taken from the innermost builder only: the next
free slots do not increase from the innermost builder down to the terminal, the
slots that are live are apart from each other and from those that the terminal
started with, and a block that is left leaves all next free slots as it found
them, so that another block in its place is given the same slots. -/
theorem live_slots_apart (terminal : Terminal) (ambient : ω)
    (steps : List (ScopeStep ω)) (hsteps : ∀ step ∈ steps, step.IsLocal) :
    let events := ((start terminal ambient).run steps).1
    let scopes := ((start terminal ambient).run steps).2
    scopes.tops.Pairwise (· ≥ ·) ∧
      (liveRanges events).Pairwise SlotRange.Apart ∧
      (∀ range ∈ liveRanges events, terminal.topLocal ≤ range.start) ∧
      ∀ opening body ending,
        (∀ step ∈ opening :: (body ++ [ending]), step.IsLocal) →
        scopes.Encloses opening body ending →
        let after := (scopes.run (opening :: (body ++ [ending]))).2
        after.tops = scopes.tops ∧
          ∀ sibling, (∀ step ∈ sibling, step.IsLocal) →
            (after.run sibling).1.map SlotEvent.call =
              (scopes.run (opening :: body)).1.map SlotEvent.call →
            (after.run sibling).1 = (scopes.run (opening :: body)).1 := by
  intro events scopes
  have hstacked := run_stacked terminal ambient hsteps
  have hkeeps :=
    ((start terminal ambient).run_trace trivial hsteps).2
  have hpacked : Packed terminal.topLocal scopes.chain.topLocal
      (liveRanges events) := by
    obtain ⟨outer, hcounters⟩ := scopes.chain.exists_counters
    have hall := hstacked
    rw [hcounters] at hall
    exact hall.packed
  refine ⟨Chain.sorted_tops hstacked.sorted, hpacked.apart,
    fun range hmem => (hpacked.inside range hmem).1, ?_⟩
  intro opening body ending hlocal hencloses after
  have houtline := hencloses.outline_eq hkeeps hlocal
  have hafter := (run_trace hkeeps hlocal).2
  refine ⟨Chain.tops_of_outline houtline, fun sibling hsibling hcalls => ?_⟩
  obtain ⟨hopening, hinside⟩ := List.forall_mem_cons.1 hlocal
  have hfirst : ∀ step ∈ opening :: body, step.IsLocal :=
    List.forall_mem_cons.2 ⟨hopening, (List.forall_mem_append.1 hinside).1⟩
  exact run_unique houtline hafter hkeeps hsibling hfirst hcalls

/-- Takes a slot. -/
def take (kind : Kind) : ScopeStep ω :=
  .perform do
    let _ ← Build.allocate kind

/-- Feeds an element to a shift of the ambient state. -/
def feed (focus : Focus ω LocalShift) (element : Element) : ScopeStep ω :=
  .perform ((LocalShift.transform.zoom focus).accept element)

theorem isLocal_take (kind : Kind) : (take kind : ScopeStep ω).IsLocal :=
  Build.asks_bind ⟨trivial, fun _ => trivial⟩ fun _ => trivial

/-- A shift takes the slots that it needs from the innermost builder. -/
theorem isLocal_feed (focus : Focus ω LocalShift) (element : Element) :
    (feed focus element).IsLocal := by
  have hshift : LocalShift.transform.Asks Request.KeepsToLayers :=
    LocalShift.asks_transform (fun _ => trivial) fun _ => trivial
  exact (hshift.accept element).zoom focus

/-- The shift is all of the ambient state. -/
def wholeShift : Focus LocalShift LocalShift where
  get := id
  modify := id

/-- A slot of the terminal, a wide one of a block that a shift takes through a
transform, and one of a block inside. -/
def nestedSteps : List (ScopeStep LocalShift) :=
  [take .int, .openBlock none ⟨9⟩, .enter .chained .acceptAll,
    feed wholeShift (.store .long 7), .openBlock none ⟨9⟩, take .float]

/-- The builders that are there then. -/
def nestedScopes : Scopes LocalShift :=
  ((start (.buffered (.withInitialLocals 1)) { fixed := 0 }).run nestedSteps).2

theorem nestedScopes_slots_apart :
    let events :=
      ((start (.buffered (.withInitialLocals 1)) { fixed := 0 }).run nestedSteps).1
    let after := (nestedScopes.run
      [.openBlock none ⟨9⟩, take .double, .dropBlock]).2
    (∀ step ∈ nestedSteps, step.IsLocal) ∧
      liveRanges events = [⟨4, 1⟩, ⟨2, 2⟩, ⟨1, 1⟩] ∧
      nestedScopes.tops.Pairwise (· ≥ ·) ∧
      (liveRanges events).Pairwise SlotRange.Apart ∧
      (∀ range ∈ liveRanges events, 1 ≤ range.start) ∧
      nestedScopes.Encloses (.openBlock none ⟨9⟩) [take .double] .dropBlock ∧
      after.tops = nestedScopes.tops ∧
      (after.run [.openBlock none ⟨9⟩, take .double]).1 =
        (nestedScopes.run [.openBlock none ⟨9⟩, take .double]).1 := by
  have hlocal : ∀ step ∈ nestedSteps, step.IsLocal := by
    intro step hmem
    simp only [nestedSteps, List.mem_cons, List.not_mem_nil, or_false] at hmem
    rcases hmem with rfl | rfl | rfl | rfl | rfl | rfl
    · exact isLocal_take .int
    · trivial
    · exact fun element => ⟨trivial, fun _ => trivial⟩
    · exact isLocal_feed wholeShift (.store .long 7)
    · trivial
    · exact isLocal_take .float
  have hblock : ∀ step ∈ [(.openBlock none ⟨9⟩ : ScopeStep LocalShift),
      take .double, .dropBlock], step.IsLocal := by
    simp only [List.forall_mem_cons, List.not_mem_nil, false_implies, implies_true,
      and_true]
    exact ⟨trivial, isLocal_take .double, trivial⟩
  have hencloses :
      nestedScopes.Encloses (.openBlock none ⟨9⟩) [take .double] .dropBlock := by
    refine ⟨⟨none, ⟨9⟩, rfl⟩, ?_, rfl⟩
    intro early late hsplit
    rcases List.cons_eq_append_iff.1 hsplit with ⟨rfl, -⟩ | ⟨rest, rfl, hrest⟩
    · decide
    · obtain ⟨rfl, -⟩ := List.append_eq_nil_iff.1 hrest.symm
      decide
  obtain ⟨hsorted, hapart, hbehind, hgives⟩ :=
    live_slots_apart (.buffered (.withInitialLocals 1)) { fixed := 0 } nestedSteps
      hlocal
  obtain ⟨htops, hsibling⟩ :=
    hgives (.openBlock none ⟨9⟩) [take .double] .dropBlock hblock hencloses
  have hagain := hsibling [.openBlock none ⟨9⟩, take .double]
    (List.forall_mem_append.1 hblock).1 (by decide)
  exact ⟨hlocal, by decide, hsorted, hapart, hbehind, hencloses, htops, hagain⟩

end Scopes

end JvmMethod
