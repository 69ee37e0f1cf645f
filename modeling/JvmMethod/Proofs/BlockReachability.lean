import Mathlib.Logic.Relation
import JvmMethod.Proofs.BlockStack
import JvmMethod.Structured

/-!
# What a block knows of reachability

A block is told of what is pushed through it, and of nothing else.  The start
and stop labels of the blocks inside it are put into the terminal past it, so it
goes on to take the code for unreachable behind such a label, though a branch
may lead there.  These are the labels that are *hidden* from the block: the ones
put past it while it has the code for unreachable, and its own stop label if it
ends so.

* `exists_dead_end`: where a block takes the code for unreachable there is an
  element that never continues behind itself, and after it only labels that are
  hidden from the block.
* `Build.enclosed_stop_unreached`: unless a branch goes to a hidden label, no
  execution gets to the stop label of a block that is closed as unreachable.
* `Build.hidden_stop_reached`: with such a branch, one may.
-/

namespace JvmMethod

variable {ω α : Type}

/-- The labels to which an element may send control. -/
def ElementOf.targets {ℓ : Type} : ElementOf ℓ → List ℓ
  | .branch instruction => instruction.targets
  | _ => []

/-- One step of control through code.  Conditions may hold or not, and a switch
may find any of its targets. -/
inductive Flow (code : List Element) : Nat → Nat → Prop where
  /-- On to the following element. -/
  | next {position : Nat} {element : Element}
      (hat : code[position]? = some element) (hgoes : element.flow ≠ .leave)
      (hmore : position + 1 < code.length) : Flow code position (position + 1)
  /-- To the place of a target. -/
  | jump {position target : Nat} {element : Element} {label : Label}
      (hat : code[position]? = some element) (htarget : label ∈ element.targets)
      (hplace : code[target]? = some (.label label)) : Flow code position target

/-- What is behind an element that never continues there cannot be reached from
what is before, if no branch goes to a label there. -/
theorem Flow.confined {before after : List Element} {element : Element}
    (hleaves : element.flow = .leave)
    (hplaces : ∀ other ∈ before ++ element :: after, ∀ label ∈ other.targets,
      .label label ∉ after)
    {position target : Nat} (hstart : position ≤ before.length)
    (hflow : Relation.ReflTransGen (Flow (before ++ element :: after)) position
      target) : target ≤ before.length := by
  induction hflow with
  | refl => exact hstart
  | tail _ hstep ih =>
    cases hstep with
    | next hat hgoes _ =>
      -- the only way past the element would be to continue behind it
      by_contra hpast
      have hlast : _ = before.length := Nat.le_antisymm ih (by omega)
      rw [hlast, List.getElem?_append_right (Nat.le_refl _)] at hat
      simp only [Nat.sub_self, List.getElem?_cons_zero, Option.some.injEq] at hat
      subst hat
      exact hgoes hleaves
    | jump hat htarget hplace =>
      by_contra hpast
      have hbehind : before.length < _ := Nat.lt_of_not_le hpast
      rw [List.getElem?_append_right (by omega)] at hplace
      obtain ⟨offset, hoffset⟩ := Nat.exists_eq_add_of_lt hbehind
      have hindex : before.length + offset + 1 - before.length = offset + 1 := by
        omega
      rw [hoffset, hindex, List.getElem?_cons_succ] at hplace
      exact hplaces _ (List.mem_of_getElem? hat) _ htarget
        (List.mem_of_getElem? hplace)

/-- Whether a block takes the code for reachable after an arrival. -/
def Arrival.seen (reachable : Bool) : Arrival → Bool
  | .through element =>
      if reachable then element.flow ≠ .leave else element.isLabel
  | .past _ => reachable

/-- The label that is put past the block. -/
def Arrival.pastLabel? : Arrival → Option Label
  | .through _ => none
  | .past element => element.placed?

/-- What a block takes the code for, and the labels that it has missed since. -/
structure Sight where
  reachable : Bool := true
  hidden : List Label := []
  deriving DecidableEq

/-- The sight of a block after an arrival. -/
def Sight.note (sight : Sight) (arrival : Arrival) : Sight :=
  if arrival.seen sight.reachable then {}
  else
    { reachable := false
      hidden := sight.hidden ++ arrival.pastLabel?.toList }

/-- The labels that are hidden from a block when everything has arrived. -/
def hiddenLabels (came : List Arrival) : List Label :=
  (came.foldl Sight.note {}).hidden

@[simp] theorem Sight.reachable_note (sight : Sight) (arrival : Arrival) :
    (sight.note arrival).reachable = arrival.seen sight.reachable := by
  unfold Sight.note
  cases arrival.seen sight.reachable <;> rfl

theorem Sight.reachable_foldl (sight : Sight) (came : List Arrival) :
    (came.foldl Sight.note sight).reachable =
      came.foldl Arrival.seen sight.reachable := by
  induction came generalizing sight with
  | nil => rfl
  | cons arrival came ih => simp [ih]

/-- **Where a block takes the code for unreachable**, there is a dead end, and
behind it there are only hidden labels. -/
theorem exists_dead_end {came : List Arrival}
    (h : (came.foldl Sight.note {}).reachable = false) :
    ∃ before element after, came = before ++ .through element :: after ∧
      element.flow = .leave ∧
      ∀ label, .label label ∈ after.map Arrival.element →
        label ∈ hiddenLabels came := by
  induction came using List.reverseRecOn with
  | nil => cases h
  | append_singleton came arrival ih =>
    simp only [hiddenLabels, List.foldl_append, List.foldl_cons,
      List.foldl_nil] at h ⊢
    generalize hsight : came.foldl Sight.note {} = sight at h ih
    rw [Sight.reachable_note] at h
    have hnote : (sight.note arrival).hidden =
        sight.hidden ++ arrival.pastLabel?.toList := by
      simp [Sight.note, h]
    by_cases hreachable : sight.reachable = true
    · -- the dead end has just arrived
      cases arrival with
      | through element =>
        refine ⟨came, element, [], rfl, ?_, by simp⟩
        simpa [Arrival.seen, hreachable] using h
      | past element =>
        rw [Arrival.seen, hreachable] at h
        cases h
    · rw [Bool.not_eq_true] at hreachable
      obtain ⟨before, element, after, rfl, hleaves, hlabels⟩ := ih hreachable
      refine ⟨before, element, after ++ [arrival], by simp, hleaves, ?_⟩
      intro label hmem
      rw [hnote, List.mem_append]
      rw [List.map_append, List.mem_append] at hmem
      rcases hmem with hold | hnew
      · rw [hiddenLabels, hsight] at hlabels
        exact .inl (hlabels label hold)
      · refine .inr ?_
        have hself : .label label = arrival.element := by simpa using hnew
        cases arrival with
        | through element =>
          have hplaces : element = .label label := hself.symm
          subst hplaces
          simp [Arrival.seen, hreachable, ElementOf.isLabel] at h
        | past element =>
          have hplaces : element = .label label := hself.symm
          subst hplaces
          simp [Arrival.pastLabel?, ElementOf.placed?]

/-- The later block is the earlier one after what has arrived. -/
structure Block.Becomes (block : Block) (came : List Arrival) (last : Block) :
    Prop where
  startLabel : last.startLabel = block.startLabel
  stopLabel : last.stopLabel = block.stopLabel
  breakLabel : last.breakLabel = block.breakLabel
  reachable : last.reachable = came.foldl Arrival.seen block.reachable

namespace BlockStack

variable {stack after : BlockStack} {ambient later : ω}

/-- What a request does to the innermost block. -/
theorem becomes_answer (request : Request) (block : Block) (blocks : List Block)
    (terminal : Terminal) :
    ∃ last rest,
      (answer ⟨block :: blocks, terminal⟩ request).2.blocks = last :: rest ∧
      block.Becomes
        (request.arrivals (answer ⟨block :: blocks, terminal⟩ request).1) last := by
  cases request with
  | push element | terminalPush element =>
    rcases hpush : terminal.push element with ⟨fault | ⟨⟩, next⟩ <;>
      simp only [answer, hpush] <;>
      exact ⟨_, _, rfl, rfl, rfl, rfl, rfl⟩
  | allocate kind =>
    refine ⟨(block.allocate kind).2, blocks, rfl, ?_⟩
    unfold Block.allocate
    split <;> exact ⟨rfl, rfl, rfl, rfl⟩
  | _ => exact ⟨block, blocks, rfl, rfl, rfl, rfl, rfl⟩

/-- **What a script does to the innermost block.** -/
theorem becomes_run (script : Script ω α) {block : Block} {blocks : List Block}
    (hblocks : stack.blocks = block :: blocks) (ambient : ω) :
    ∃ last rest, (run script stack ambient).2.1.blocks = last :: rest ∧
      block.Becomes (arrivals script stack ambient) last := by
  refine run_induction (motive := fun stack came after => ∀ block blocks,
    stack.blocks = block :: blocks → ∃ last rest,
      after.blocks = last :: rest ∧ block.Becomes came last)
    ?_ ?_ script stack ambient block blocks hblocks
  · intro stack block blocks hstart
    exact ⟨block, blocks, hstart, rfl, rfl, rfl, rfl⟩
  · intro stack request came after hrest block blocks hstart
    obtain ⟨_, terminal⟩ := stack
    cases hstart
    obtain ⟨middle, others, hmiddle, hfirst⟩ :=
      becomes_answer request block blocks terminal
    obtain ⟨last, rest, hlast, hthen⟩ := hrest middle others hmiddle
    refine ⟨last, rest, hlast, ?_, ?_, ?_, ?_⟩
    · rw [hthen.startLabel, hfirst.startLabel]
    · rw [hthen.stopLabel, hfirst.stopLabel]
    · rw [hthen.breakLabel, hfirst.breakLabel]
    · rw [hthen.reachable, hfirst.reachable, List.foldl_append]

end BlockStack

/-- Opens a block with a start label that was made ahead of time, or with a new
one. -/
def Build.openBlockFrom (startLabel? : Option Label) (breakLabel : Label) :
    Build ω Block :=
  match startLabel? with
  | some startLabel => openBlockAt startLabel breakLabel
  | none => openBlock breakLabel

/-- Opens a block, works inside it, and closes it. -/
def Build.enclosed (startLabel? : Option Label) (breakLabel : Label)
    (body : Build ω Unit) : Build ω BlockSummary := do
  let block ← openBlockFrom startLabel? breakLabel
  let ((), block) ← within block body
  closeBlock block

namespace BlockStack

variable {stack after : BlockStack} {ambient later : ω} {block : Block}
  {came : List Arrival}

/-- A block that has just been opened is taken for reachable. -/
theorem Yields.of_openBlockFrom {startLabel? : Option Label} {breakLabel : Label}
    (h : stack.Yields ambient (Build.openBlockFrom startLabel? breakLabel) block
      came after later) :
    block.reachable = true ∧ came = [.past (.label block.startLabel)] := by
  cases startLabel? with
  | some startLabel =>
    obtain ⟨_, _, rfl, rfl, _, _⟩ := h.of_openBlockAt
    exact ⟨rfl, rfl⟩
  | none =>
    obtain ⟨_, _, _, _, _, hfresh, hopen, rfl⟩ := h.of_bind
    obtain ⟨-, rfl, -, -⟩ := hfresh.of_freshLabel
    obtain ⟨_, _, rfl, rfl, _, _⟩ := hopen.of_openBlockAt
    exact ⟨rfl, rfl⟩

/-- Working inside a block: the block has noted what arrived from its body. -/
theorem Yields.of_within_becomes {body : Build ω α} {result : α} {last : Block}
    (h : stack.Yields ambient (Build.within block body) (result, last) came after
      later) :
    Yields ⟨block :: stack.blocks, stack.terminal⟩ ambient body result came
        ⟨last :: after.blocks, after.terminal⟩ later ∧
      block.Becomes came last := by
  have hbody := h.of_within
  obtain ⟨last', rest, hlast, hbecomes⟩ :=
    @becomes_run _ _ ⟨block :: stack.blocks, stack.terminal⟩ body.run _ _ rfl
      ambient
  rw [hbody.run_eq] at hlast
  rw [hbody.arrivals_eq] at hbecomes
  cases hlast
  exact ⟨hbody, hbecomes⟩

/-- What arrives from a block is between its labels, and it is closed as
reachable if it has seen so. -/
theorem Yields.of_enclosed {startLabel? : Option Label} {breakLabel : Label}
    {body : Build ω Unit} {summary : BlockSummary}
    (h : stack.Yields ambient (Build.enclosed startLabel? breakLabel body) summary
      came after later) :
    ∃ inner, came = .past (.label summary.start) ::
        (inner ++ [.past (.label summary.stop)]) ∧
      summary.reachable = inner.foldl Arrival.seen true := by
  obtain ⟨block, _, _, _, _, hopen, h₁, rfl⟩ := h.of_bind
  obtain ⟨hreachable, rfl⟩ := hopen.of_openBlockFrom
  obtain ⟨⟨⟨⟩, last⟩, inner, _, _, _, hwithin, h₂, rfl⟩ := h₁.of_bind
  obtain ⟨_, _, rfl, rfl, _, _⟩ := h₂.of_closeBlock
  have hbecomes := hwithin.of_within_becomes.2
  refine ⟨inner, ?_, ?_⟩
  · simp [Block.summary, hbecomes.startLabel]
  · rw [Block.summary, hbecomes.reachable, hreachable]

end BlockStack

namespace Build

/-- **A block that is closed as unreachable is not left at its end**, unless a
branch goes to a label that is hidden from it.  The body of the block may do
anything with the builder: open blocks inside, use labels at hand, put elements
past the block. -/
theorem enclosed_stop_unreached {chain after : Chain ω} (hbare : chain.IsBare)
    {startLabel? : Option Label} {breakLabel : Label} {body : Build ω Unit}
    {ambient later : ω} {summary : BlockSummary}
    (hrun : chain.run (enclosed startLabel? breakLabel body).run ambient =
      (.ok summary, after, later))
    (hunreachable : summary.reachable = false)
    (htargets : ∀ element ∈
        chain.emitted (enclosed startLabel? breakLabel body).run ambient,
      ∀ label ∈ element.targets, label ∉ hiddenLabels
        (chain.arrivals (enclosed startLabel? breakLabel body).run ambient)) :
    ∃ inner, chain.emitted (enclosed startLabel? breakLabel body).run ambient =
        .label summary.start :: (inner ++ [.label summary.stop]) ∧
      ¬ Relation.ReflTransGen
        (Flow (chain.emitted (enclosed startLabel? breakLabel body).run ambient))
        0 (inner.length + 1) := by
  obtain ⟨stack, rfl⟩ := hbare.exists_stack
  obtain ⟨hflat, harrivals⟩ :=
    BlockStack.run_chain (enclosed startLabel? breakLabel body).run stack ambient
  rw [hflat] at hrun
  have hok := congrArg Prod.fst hrun
  have hyields : stack.Yields ambient (enclosed startLabel? breakLabel body) summary
      (stack.chain.arrivals (enclosed startLabel? breakLabel body).run ambient)
      _ _ :=
    ⟨Prod.ext hok rfl, harrivals.symm⟩
  simp only [Chain.emitted] at htargets ⊢
  generalize stack.chain.arrivals (enclosed startLabel? breakLabel body).run
    ambient = came at hyields htargets ⊢
  obtain ⟨inner, hcame, hseen⟩ := hyields.of_enclosed
  have hlost : (came.foldl Sight.note {}).reachable = false := by
    rw [Sight.reachable_foldl, hcame]
    simpa [Arrival.seen, hunreachable] using hseen.symm
  obtain ⟨before, element, behind, hsplit, hleaves, hlabels⟩ := exists_dead_end hlost
  have hcode : came.map Arrival.element =
      before.map Arrival.element ++ element :: behind.map Arrival.element := by
    simp [hsplit, Arrival.element]
  -- the stop label has come past the block, so the dead end is before it
  have hbehind : behind ≠ [] := by
    rintro rfl
    rw [hcame, ← List.cons_append] at hsplit
    have hlast := (List.append_inj' hsplit rfl).2
    cases hlast
  have hlength := congrArg List.length (hcame.symm.trans hsplit)
  simp only [List.length_cons, List.length_append, List.length_nil] at hlength
  have hmore := List.length_pos_iff.2 hbehind
  refine ⟨inner.map Arrival.element, by simp [hcame, Arrival.element], ?_⟩
  intro hflow
  rw [hcode] at htargets hflow
  have hend := Flow.confined hleaves
    (fun other hother label htarget hmem =>
      htargets other hother label htarget (hlabels label hmem))
    (Nat.zero_le _) hflow
  simp only [List.length_map] at hend
  omega

/-- A method body without elements, of which one label is known. -/
def labelledChain : Chain Unit :=
  .terminal (.buffered (Buffered.withInitialLocals 0).freshLabel.2)

/-- A block that loops, and a return behind it. -/
def loopThenReturn : Build Unit Unit := do
  let breakLabel ← freshLabel
  let loop ← openBlock breakLabel
  let ((), loop) ← within loop do
    push (.constant (.int 0))
    branch (.zero .eq) loop.startLabel
  let _ ← closeBlock loop
  push (.methodReturn .void)

/-- What is emitted for it. -/
def loopThenReturnCode : List Element :=
  [.label ⟨1⟩, .label ⟨4⟩, .constant (.int 0), .branch (.test (.zero .eq) ⟨4⟩),
    .label ⟨5⟩, .methodReturn .void, .label ⟨2⟩]

/-- What is known of the block around it. -/
def loopThenReturnSummary : BlockSummary :=
  { start := ⟨1⟩, stop := ⟨2⟩, breakLabel := ⟨0⟩, reachable := false
    isEmpty := false }

theorem loopThenReturn_stop_unreached :
    labelledChain.emitted (enclosed none ⟨0⟩ loopThenReturn).run () =
        loopThenReturnCode ∧
      ∃ inner, labelledChain.emitted (enclosed none ⟨0⟩ loopThenReturn).run () =
          .label loopThenReturnSummary.start ::
            (inner ++ [.label loopThenReturnSummary.stop]) ∧
        ¬ Relation.ReflTransGen
          (Flow (labelledChain.emitted (enclosed none ⟨0⟩ loopThenReturn).run ()))
          0 (inner.length + 1) := by
  have hrun : labelledChain.run (enclosed none ⟨0⟩ loopThenReturn).run () =
      (.ok loopThenReturnSummary,
        (labelledChain.run (enclosed none ⟨0⟩ loopThenReturn).run ()).2.1, ()) :=
    rfl
  have hcode : labelledChain.emitted (enclosed none ⟨0⟩ loopThenReturn).run () =
      loopThenReturnCode := rfl
  have hhidden : hiddenLabels
      (labelledChain.arrivals (enclosed none ⟨0⟩ loopThenReturn).run ()) = [⟨2⟩] :=
    rfl
  have hbare : labelledChain.IsBare := trivial
  refine ⟨hcode, enclosed_stop_unreached hbare hrun rfl ?_⟩
  rw [hcode, hhidden]
  decide

/-- A block inside that is left by a branch to its own stop label, or else by a
return. -/
def skipOrReturn : Build Unit Unit := do
  let breakLabel ← freshLabel
  let skipped ← openBlock breakLabel
  let ((), skipped) ← within skipped do
    push (.constant (.int 0))
    branch (.zero .eq) skipped.stopLabel
    push (.methodReturn .void)
  let _ ← closeBlock skipped

/-- What is emitted for it. -/
def skipOrReturnCode : List Element :=
  [.label ⟨1⟩, .label ⟨4⟩, .constant (.int 0), .branch (.test (.zero .eq) ⟨5⟩),
    .methodReturn .void, .label ⟨5⟩, .label ⟨2⟩]

/-- Hidden labels do matter: the stop label of a block inside is hidden, and
behind it control falls off the end of a block that is closed as unreachable. -/
theorem hidden_stop_reached :
    ¬ ∀ (chain after : Chain Unit) (breakLabel : Label) (body : Build Unit Unit)
        (summary : BlockSummary), chain.IsBare →
      chain.run (enclosed none breakLabel body).run () =
        (.ok summary, after, ()) →
      summary.reachable = false →
      ∀ inner, chain.emitted (enclosed none breakLabel body).run () =
          .label summary.start :: (inner ++ [.label summary.stop]) →
        ¬ Relation.ReflTransGen
          (Flow (chain.emitted (enclosed none breakLabel body).run ())) 0
          (inner.length + 1) := by
  intro hsound
  have hunreached := hsound labelledChain _ ⟨0⟩ skipOrReturn
    { start := ⟨1⟩, stop := ⟨2⟩, breakLabel := ⟨0⟩, reachable := false
      isEmpty := false } trivial rfl rfl
    [.label ⟨4⟩, .constant (.int 0), .branch (.test (.zero .eq) ⟨5⟩),
      .methodReturn .void, .label ⟨5⟩] rfl
  have hcode : labelledChain.emitted (enclosed none ⟨0⟩ skipOrReturn).run () =
      skipOrReturnCode := rfl
  rw [hcode] at hunreached
  have hfirst : Flow skipOrReturnCode 0 1 := .next rfl (by decide) (by decide)
  have hsecond : Flow skipOrReturnCode 1 2 := .next rfl (by decide) (by decide)
  have hthird : Flow skipOrReturnCode 2 3 := .next rfl (by decide) (by decide)
  have hskip : Flow skipOrReturnCode 3 5 := .jump rfl List.mem_cons_self rfl
  have hlast : Flow skipOrReturnCode 5 6 := .next rfl (by decide) (by decide)
  exact hunreached
    (((((Relation.ReflTransGen.single hfirst).tail hsecond).tail hthird).tail
      hskip).tail hlast)

end Build

end JvmMethod
