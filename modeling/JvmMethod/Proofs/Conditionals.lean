import JvmMethod.Proofs.ConditionalCode
import JvmMethod.Proofs.StructuredRuns

/-!
# Conditionals decide

A handler fills in an arm: it pushes elements, among them labels and branches,
asks for labels and slots, looks at the blocks it is in, and makes blocks and
conditionals in turn.  What it pushes itself is recorded, which tells it from
the branches and labels that belong to the constructs it makes.

`Handler.handles` is the induction over a handler.  Whatever it does, every
label that its constructs put past the blocks around it is followed by a label
that is pushed through them, and the branches of its constructs go to labels
that are new.  So a block around it sees its end right, and
`Conditional.lowers` follows: a conditional with handlers for its arms decides
what is executed.
-/

namespace JvmMethod

/-- What is done inside a block, step by step. -/
inductive Handler where
  | done
  | push (element : Element) (next : Handler)
  | freshLabel (next : Label → Handler)
  | allocate (kind : Kind) (next : Slot → Handler)
  /-- Looks at the blocks around it, with their labels, and at the terminal. -/
  | look (next : List Layer → Terminal → Handler)
  | block (body next : Handler)
  | ifThen (condition : Condition) (body next : Handler)
  | ifThenElse (condition : Condition) (thenBody elseBody next : Handler)

/-- Does what the handler says.  The ambient state is what handlers have pushed
themselves. -/
def Handler.build : Handler → Build (List Element) Unit
  | .done => pure ()
  | .push element next => do
      Build.push element
      Build.change (· ++ [element])
      next.build
  | .freshLabel next => do
      let label ← Build.freshLabel
      (next label).build
  | .allocate kind next => do
      let slot ← Build.allocate kind
      (next slot).build
  | .look next => do
      let layers ← Build.layers
      let terminal ← Build.terminal
      (next layers terminal).build
  | .block body next => do
      Build.block body.build
      next.build
  | .ifThen condition body next => do
      Build.ifThen condition body.build
      next.build
  | .ifThenElse condition thenBody elseBody next => do
      Build.ifThenElse condition thenBody.build elseBody.build
      next.build

/-- The element was pushed by a handler itself, or it goes to new labels at
most. -/
def IsInner (own : List Element) (low high : Nat) (arrival : Arrival) : Prop :=
  arrival.element ∈ own ∨
    ∀ label ∈ arrival.element.targets, low ≤ label.index ∧ label.index < high

/-- What arrives from handlers: `own` is what they have pushed themselves. -/
structure Handles (own : List Element) (low : Nat) (came : List Arrival)
    (high : Nat) : Prop where
  /-- No label that was put past a block is hidden from it in the end. -/
  shown : ∀ sight : Sight,
    ∀ label ∈ (came.foldl Sight.note sight).hidden, label ∈ sight.hidden
  inner : ∀ arrival ∈ came, IsInner own low high arrival

section Handles

variable {own more : List Element} {low middle high low' high' : Nat}
  {came late : List Arrival} {label : Label} {arrival : Arrival}

theorem IsInner.mono (h : IsInner own low high arrival) (hown : own ⊆ more)
    (hlow : low' ≤ low) (hhigh : high ≤ high') :
    IsInner more low' high' arrival := by
  rcases h with hself | hnew
  · exact .inl (hown hself)
  · refine .inr fun label htarget => ?_
    have hrange := hnew label htarget
    omega

/-- A label goes nowhere. -/
theorem IsInner.placing (h : arrival.element = .label label) :
    IsInner own low high arrival := by
  refine .inr fun _ htarget => ?_
  rw [h] at htarget
  cases htarget

/-- A branch of a construct goes to one of its labels. -/
theorem IsInner.branching {instruction : Branch Label}
    (h : arrival.element = .branch instruction)
    (htargets : instruction.targets = [label])
    (hrange : low ≤ label.index ∧ label.index < high) :
    IsInner own low high arrival := by
  refine .inr fun other htarget => ?_
  rw [h, ElementOf.targets, htargets, List.mem_singleton] at htarget
  rwa [htarget]

theorem Handles.nil : Handles own low [] high where
  shown _ _ hmem := hmem
  inner := by simp

theorem Handles.mono (h : Handles own low came high) (hown : own ⊆ more)
    (hlow : low' ≤ low) (hhigh : high ≤ high') : Handles more low' came high' where
  shown := h.shown
  inner arrival hmem := (h.inner arrival hmem).mono hown hlow hhigh

/-- One thing after the other. -/
theorem Handles.append (h : Handles own low came middle)
    (hlate : Handles more middle late high) (hlow : low ≤ middle)
    (hhigh : middle ≤ high) :
    Handles (own ++ more) low (came ++ late) high where
  shown sight label hmem := by
    rw [List.foldl_append] at hmem
    exact h.shown sight label (hlate.shown _ label hmem)
  inner arrival hmem := by
    rcases List.mem_append.1 hmem with hearly | hlater
    · exact (h.inner arrival hearly).mono (List.subset_append_left _ _)
        (Nat.le_refl _) hhigh
    · exact (hlate.inner arrival hlater).mono (List.subset_append_right _ _) hlow
        (Nat.le_refl _)

theorem Handles.push (element : Element) :
    Handles [element] low [.through element] high where
  shown sight label hmem := by
    simp only [List.foldl_cons, List.foldl_nil, Sight.note, Arrival.pastLabel?,
      Option.toList_none, List.append_nil] at hmem
    split at hmem
    · cases hmem
    · exact hmem
  inner arrival hmem := by
    cases List.mem_singleton.1 hmem
    exact .inl List.mem_cons_self

/-- A construct ends with a label that is pushed, so no block around it misses
any of its labels. -/
theorem Handles.construct
    (hinner : ∀ arrival ∈ came, IsInner own low high arrival) :
    Handles own low (came ++ [.through (.label label)]) high where
  shown sight other hmem := by
    have hseen (reachable : Bool) :
        Arrival.seen reachable (.through (.label label)) = true := by
      cases reachable <;> rfl
    rw [List.foldl_append, List.foldl_cons, List.foldl_nil, Sight.note, hseen,
      if_pos rfl] at hmem
    cases hmem
  inner arrival hmem := by
    rcases List.mem_append.1 hmem with hbefore | hlast
    · exact hinner arrival hbefore
    · cases List.mem_singleton.1 hlast
      exact .placing rfl

/-- What arrives from a block. -/
theorem Handles.block {start stop : Label} (h : Handles own low came high) :
    Handles own low (.past (.label start) ::
      (came ++ [.past (.label stop), .through (.label label)])) high := by
  have hconstruct := @Handles.construct own low high
    (.past (.label start) :: (came ++ [.past (.label stop)])) label ?_
  · simpa using hconstruct
  · refine List.forall_mem_cons.2 ⟨.placing rfl, List.forall_mem_append.2 ⟨h.inner, ?_⟩⟩
    exact List.forall_mem_singleton.2 (.placing rfl)

/-- What arrives from a conditional with one arm. -/
theorem Handles.ifThen {start stop : Label} {condition : Condition}
    (h : Handles own low came high) (hrange : low ≤ label.index ∧ label.index < high) :
    Handles own low (.past (.label start) ::
      .through (.branch (.test condition label)) ::
      (came ++ [.past (.label stop), .through (.label label)])) high := by
  have hconstruct := @Handles.construct own low high
    (.past (.label start) :: .through (.branch (.test condition label)) ::
      (came ++ [.past (.label stop)])) label ?_
  · simpa using hconstruct
  · refine List.forall_mem_cons.2 ⟨.placing rfl, List.forall_mem_cons.2 ⟨?_, ?_⟩⟩
    · exact .branching rfl rfl hrange
    · refine List.forall_mem_append.2 ⟨h.inner, ?_⟩
      exact List.forall_mem_singleton.2 (.placing rfl)

/-- What arrives from a conditional with two arms. -/
theorem Handles.ifThenElse {thenStart thenStop elseStart elseStop : Label}
    {condition : Condition} {reachable : Bool} (h : Handles own low came high)
    (hlate : Handles more low late high)
    (hbreak : low ≤ label.index ∧ label.index < high)
    (helse : low ≤ elseStart.index ∧ elseStart.index < high) :
    Handles (own ++ more) low (.past (.label thenStart) ::
      .through (.branch (.test condition elseStart)) ::
      (came ++ jumpArrivals reachable label ++ .past (.label thenStop) ::
        .past (.label elseStart) ::
        (late ++ [.past (.label elseStop), .through (.label label)]))) high := by
  have hthen := (h.mono (List.subset_append_left own more) (Nat.le_refl _)
    (Nat.le_refl _)).inner
  have helseInner := (hlate.mono (List.subset_append_right own more) (Nat.le_refl _)
    (Nat.le_refl _)).inner
  have hjump : ∀ arrival ∈ jumpArrivals reachable label,
      IsInner (own ++ more) low high arrival := by
    intro arrival hmem
    rw [jumpArrivals] at hmem
    split at hmem
    · cases List.mem_singleton.1 hmem
      exact .branching rfl rfl hbreak
    · cases hmem
  have hconstruct := @Handles.construct (own ++ more) low high
    (.past (.label thenStart) :: .through (.branch (.test condition elseStart)) ::
      (came ++ jumpArrivals reachable label ++ .past (.label thenStop) ::
        .past (.label elseStart) :: (late ++ [.past (.label elseStop)]))) label ?_
  · simpa using hconstruct
  · refine List.forall_mem_cons.2 ⟨.placing rfl, List.forall_mem_cons.2 ⟨?_, ?_⟩⟩
    · exact .branching rfl rfl helse
    · refine List.forall_mem_append.2 ⟨List.forall_mem_append.2 ⟨hthen, hjump⟩, ?_⟩
      refine List.forall_mem_cons.2
        ⟨.placing rfl, List.forall_mem_cons.2 ⟨.placing rfl, ?_⟩⟩
      refine List.forall_mem_append.2 ⟨helseInner, ?_⟩
      exact List.forall_mem_singleton.2 (.placing rfl)

end Handles

/-- **What arrives from a handler**, whatever it does. -/
theorem Handler.handles (handler : Handler) {stack after : BlockStack}
    {ambient later : List Element} {came : List Arrival}
    (h : stack.Yields ambient handler.build () came after later) :
    ∃ own, later = ambient ++ own ∧ Handles own stack.known came after.known := by
  induction handler generalizing stack after ambient later came with
  | done =>
    obtain ⟨-, rfl, rfl, rfl⟩ := h.of_pure
    exact ⟨[], by simp, .nil⟩
  | push element next ih =>
    obtain ⟨_, _, _, _, _, hpush, h₁, rfl⟩ := h.of_bind
    have hknown := hpush.known_le
    obtain ⟨_, _, rfl, rfl, rfl⟩ := hpush.of_push
    obtain ⟨_, _, _, _, _, hrecord, h₂, rfl⟩ := h₁.of_bind
    obtain ⟨rfl, rfl, rfl⟩ := hrecord.of_change
    obtain ⟨own, rfl, hnext⟩ := ih h₂
    refine ⟨element :: own, by simp, ?_⟩
    exact (Handles.push element).append hnext hknown h₂.known_le
  | freshLabel next ih =>
    obtain ⟨label, _, _, _, _, hfresh, h₁, rfl⟩ := h.of_bind
    have hknown := hfresh.known_le
    obtain ⟨-, rfl, -, rfl⟩ := hfresh.of_freshLabel_known
    obtain ⟨own, rfl, hnext⟩ := ih label h₁
    exact ⟨own, rfl, hnext.mono (List.Subset.refl own) hknown (Nat.le_refl _)⟩
  | allocate kind next ih =>
    obtain ⟨slot, _, _, _, _, hallocate, h₁, rfl⟩ := h.of_bind
    have hknown := hallocate.known_le
    obtain ⟨rfl, rfl⟩ := hallocate.of_allocate
    obtain ⟨own, rfl, hnext⟩ := ih slot h₁
    exact ⟨own, rfl, hnext.mono (List.Subset.refl own) hknown (Nat.le_refl _)⟩
  | look next ih =>
    obtain ⟨layers, _, _, _, _, hlayers, h₁, rfl⟩ := h.of_bind
    obtain ⟨rfl, rfl, rfl⟩ := hlayers.of_layers
    obtain ⟨terminal, _, _, _, _, hterminal, h₂, rfl⟩ := h₁.of_bind
    obtain ⟨rfl, rfl, rfl, rfl⟩ := hterminal.of_terminal
    exact ih layers _ h₂
  | block body next ihBody ihNext =>
    obtain ⟨_, _, _, _, _, hblock, h₁, rfl⟩ := h.of_bind
    have hknown := hblock.known_le
    obtain ⟨inner, rfl, opened, closed, hbody, hlow, hhigh⟩ := hblock.of_block
    obtain ⟨own, rfl, hinner⟩ := ihBody hbody
    obtain ⟨more, rfl, hnext⟩ := ihNext h₁
    refine ⟨own ++ more, by simp, Handles.append ?_ hnext hknown h₁.known_le⟩
    exact (hinner.mono (List.Subset.refl own) (by omega) hhigh).block
  | ifThen condition body next ihBody ihNext =>
    obtain ⟨_, _, _, _, _, hifThen, h₁, rfl⟩ := h.of_bind
    have hknown := hifThen.known_le
    obtain ⟨inner, rfl, opened, closed, hbody, hlow, hhigh⟩ := hifThen.of_ifThen
    have hmore := hbody.known_le
    obtain ⟨own, rfl, hinner⟩ := ihBody hbody
    obtain ⟨more, rfl, hnext⟩ := ihNext h₁
    refine ⟨own ++ more, by simp, Handles.append ?_ hnext hknown h₁.known_le⟩
    exact (hinner.mono (List.Subset.refl own) (by omega) hhigh).ifThen
      ⟨Nat.le_refl _, by simp only; omega⟩
  | ifThenElse condition thenBody elseBody next ihThen ihElse ihNext =>
    obtain ⟨_, _, _, _, _, hifThenElse, h₁, rfl⟩ := h.of_bind
    have hknown := hifThenElse.known_le
    obtain ⟨thenInner, elseInner, elseStop, _, rfl, hstop,
      ⟨thenOpened, thenClosed, hthen, hthenLow, hthenHigh⟩,
      ⟨elseOpened, elseClosed, helse, helseLow, helseHigh⟩⟩ :=
      hifThenElse.of_ifThenElse
    have hmore := helse.known_le
    obtain ⟨own, rfl, hthenInner⟩ := ihThen hthen
    obtain ⟨other, rfl, helseInner⟩ := ihElse helse
    obtain ⟨more, rfl, hnext⟩ := ihNext h₁
    refine ⟨own ++ other ++ more, by simp,
      Handles.append ?_ hnext hknown h₁.known_le⟩
    exact (hthenInner.mono (List.Subset.refl own) (by omega) (by omega)).ifThenElse
      (helseInner.mono (List.Subset.refl other) (by omega) helseHigh)
      ⟨Nat.le_refl _, by simp only; omega⟩ ⟨by simp only; omega, by simp only; omega⟩

/-- Branches of a handler avoid old labels, if those avoid them that it pushes
itself. -/
theorem Handles.avoids {own : List Element} {low high : Nat} {came : List Arrival}
    {old : List Label} (h : Handles own low came high)
    (hown : ∀ element ∈ own, ∀ label ∈ element.targets, label ∉ old)
    (hold : ∀ label ∈ old, label.index < low ∨ high ≤ label.index) :
    ∀ element ∈ came.map Arrival.element, ∀ label ∈ element.targets,
      label ∉ old := by
  intro element hmem label htarget hbad
  obtain ⟨arrival, harrival, rfl⟩ := List.mem_map.1 hmem
  rcases h.inner arrival harrival with hself | hnew
  · exact hown _ hself label htarget hbad
  · have hrange := hnew label htarget
    have hout := hold label hbad
    omega

/-- Where no label is hidden, a block that takes its end for unreachable has a
dead end, and no label behind it. -/
theorem Handles.exists_closed {own : List Element} {low high : Nat}
    {came : List Arrival} (h : Handles own low came high)
    (hunreachable : came.foldl Arrival.seen true = false) :
    ∃ before element after,
      came.map Arrival.element = before ++ element :: after ∧
      element.flow = .leave ∧ ∀ label, .label label ∉ after := by
  have hlost : (came.foldl Sight.note {}).reachable = false := by
    rw [Sight.reachable_foldl]
    exact hunreachable
  obtain ⟨before, element, after, hsplit, hleaves, hlabels⟩ := exists_dead_end hlost
  refine ⟨before.map Arrival.element, element, after.map Arrival.element, ?_,
    hleaves, ?_⟩
  · simp [hsplit, Arrival.element]
  · intro label hmem
    cases h.shown {} label (hlabels label hmem)

/-- The part is what the handler emits, in some blocks over a terminal. -/
def Handler.Emits (handler : Handler) (part : List Element) : Prop :=
  ∃ (inside : Chain (List Element)) (ambient : List Element), inside.IsBare ∧
    (inside.run handler.build.run ambient).1 = .ok () ∧
    inside.emitted handler.build.run ambient = part

theorem Handler.emits_of_yields {handler : Handler} {stack after : BlockStack}
    {ambient later : List Element} {came : List Arrival}
    (h : stack.Yields ambient handler.build () came after later) :
    handler.Emits (came.map Arrival.element) := by
  obtain ⟨hrun, harrivals⟩ := BlockStack.run_chain handler.build.run stack ambient
  refine ⟨stack.chain, ambient, stack.isBare_chain, ?_, ?_⟩
  · rw [hrun, h.run_eq]
  · rw [Chain.emitted, harrivals, h.arrivals_eq]

/-- A conditional with a handler for its arm, or for both arms. -/
structure Conditional where
  condition : Condition
  thenHandler : Handler
  elseHandler? : Option Handler

namespace Conditional

/-- Makes the conditional. -/
def build (conditional : Conditional) : Build (List Element) Unit :=
  match conditional.elseHandler? with
  | none => Build.ifThen conditional.condition conditional.thenHandler.build
  | some elseHandler =>
      Build.ifThenElse conditional.condition conditional.thenHandler.build
        elseHandler.build

/-- The lowering has the condition, and arms that the handlers emit. -/
structure LowersTo (conditional : Conditional) (lowering : Lowering) : Prop where
  condition : lowering.condition = conditional.condition
  thenPart : conditional.thenHandler.Emits lowering.thenPart
  elsePart : match conditional.elseHandler?, lowering.elseArm? with
    | none, none => True
    | some elseHandler, some arm => elseHandler.Emits arm.part
    | _, _ => False

variable {stack after : BlockStack} {own : List Element} {came : List Arrival}
  {condition : Condition} {thenHandler elseHandler : Handler}

/-- One arm. -/
theorem lowers_ifThen
    (h : stack.Yields [] (Build.ifThen condition thenHandler.build) () came after
      own) :
    ∃ lowering : Lowering, LowersTo ⟨condition, thenHandler, none⟩ lowering ∧
      came.map Arrival.element = lowering.code ∧ lowering.EndsClosed ∧
      (lowering.IsUncrossed own → lowering.KeepsApart) := by
  obtain ⟨inner, rfl, opened, closed, hbody, hlow, -⟩ := h.of_ifThen
  obtain ⟨_, rfl, hinner⟩ := thenHandler.handles hbody
  refine ⟨
    { condition, breakLabel := ⟨stack.known⟩, thenStart := ⟨stack.known + 1⟩
      thenStop := ⟨stack.known + 2⟩, thenPart := inner.map Arrival.element
      jumps := false, elseArm? := none },
    ⟨rfl, Handler.emits_of_yields hbody, trivial⟩, ?_, ?_, ?_⟩
  · simp [Lowering.code, Lowering.thenCode, Lowering.elseCode, Lowering.skipLabel,
      Arrival.element]
  · intro hsome
    cases hsome
  · intro huncrossed
    refine ⟨?_, ?_, ?_, ?_⟩
    · refine hinner.avoids huncrossed.delimiters ?_
      intro label hmem
      simp only [Lowering.delimiters, List.mem_cons, List.not_mem_nil,
        or_false] at hmem
      rcases hmem with rfl | rfl <;> exact .inl (by simp only; omega)
    · intro element hmem
      cases hmem
    · intro element _ label _ hmem
      cases hmem
    · intro element hmem
      cases hmem

/-- Two arms. -/
theorem lowers_ifThenElse
    (h : stack.Yields []
      (Build.ifThenElse condition thenHandler.build elseHandler.build) () came after
      own) :
    ∃ lowering : Lowering,
      LowersTo ⟨condition, thenHandler, some elseHandler⟩ lowering ∧
      came.map Arrival.element = lowering.code ∧ lowering.EndsClosed ∧
      (lowering.IsUncrossed own → lowering.KeepsApart) := by
  obtain ⟨thenInner, elseInner, elseStop, _, rfl, hstop,
    ⟨thenOpened, thenClosed, hthen, hthenLow, hthenHigh⟩,
    ⟨elseOpened, elseClosed, helse, helseLow, -⟩⟩ := h.of_ifThenElse
  obtain ⟨thenOwn, rfl, hthenInner⟩ := thenHandler.handles hthen
  obtain ⟨elseOwn, rfl, helseInner⟩ := elseHandler.handles helse
  refine ⟨
    { condition, breakLabel := ⟨stack.known⟩, thenStart := ⟨stack.known + 2⟩
      thenStop := ⟨stack.known + 3⟩, thenPart := thenInner.map Arrival.element
      jumps := thenInner.foldl Arrival.seen true
      elseArm? := some
        { start := ⟨stack.known + 1⟩, stop := elseStop
          part := elseInner.map Arrival.element } },
    ⟨rfl, Handler.emits_of_yields hthen, Handler.emits_of_yields helse⟩,
    ?_, ?_, ?_⟩
  · simp only [jumpArrivals]
    cases thenInner.foldl Arrival.seen true <;>
      simp [Lowering.code, Lowering.thenCode, Lowering.elseCode,
        Lowering.skipLabel, Arrival.element]
  · intro _
    cases hjumps : thenInner.foldl Arrival.seen true with
    | true =>
      exact ⟨thenInner.map Arrival.element, .branch (.goto ⟨stack.known⟩), [],
        by simp [Lowering.thenCode], rfl, by simp⟩
    | false =>
      obtain ⟨before, element, behind, hsplit, hleaves, hlabels⟩ :=
        hthenInner.exists_closed hjumps
      exact ⟨before, element, behind, by simp [Lowering.thenCode, hsplit],
        hleaves, hlabels⟩
  · intro huncrossed
    have hown := huncrossed.delimiters
    simp only [List.forall_mem_append] at hown
    refine ⟨?_, ?_, ?_, ?_⟩
    · refine hthenInner.avoids hown.1 ?_
      intro label hmem
      simp only [Lowering.delimiters, List.mem_cons, List.not_mem_nil,
        or_false] at hmem
      rcases hmem with rfl | rfl | rfl | rfl
      · exact .inl (by simp only; omega)
      · exact .inl (by simp only; omega)
      · exact .inl (by simp only; omega)
      · exact .inr hthenHigh
    · refine helseInner.avoids hown.2 ?_
      intro label hmem
      simp only [Lowering.delimiters, List.mem_cons, List.not_mem_nil,
        or_false] at hmem
      rcases hmem with rfl | rfl | rfl | rfl
      · exact .inl (by simp only; omega)
      · exact .inl (by simp only; omega)
      · exact .inl (by simp only; omega)
      · exact .inl helseLow
    · intro element hmem label htarget hplaced
      refine huncrossed.thenElse element (List.mem_append_left _ hmem) label htarget ?_
      exact List.mem_cons_of_mem _ (List.mem_append_left _ hplaced)
    · intro element hmem label htarget hplaced
      refine huncrossed.elseThen element ?_ label htarget
        (List.mem_append_left _ hplaced)
      exact List.mem_cons_of_mem _ (List.mem_append_left _ hmem)

/-- What the handlers of a conditional push themselves when it is made on a
chain. -/
def pushed (conditional : Conditional) (chain : Chain (List Element)) :
    List Element :=
  (chain.run conditional.build.run []).2.2

/-- **A conditional decides what is executed.**  On blocks over a terminal, if
the handlers of the arms succeed, what is emitted is a lowering of the
conditional.  If no branch that they push goes to a delimiter of the construct,
and no branch of an arm to a label in the other arm, then execution enters the
arm that the condition says and keeps to it until the break label. -/
theorem lowers {chain : Chain (List Element)} (hbare : chain.IsBare)
    (conditional : Conditional)
    (hok : (chain.run conditional.build.run []).1 = .ok ()) :
    ∃ lowering : Lowering, conditional.LowersTo lowering ∧
      chain.emitted conditional.build.run [] = lowering.code ∧
      (lowering.IsUncrossed (conditional.pushed chain) → lowering.Decides) := by
  obtain ⟨stack, rfl⟩ := hbare.exists_stack
  obtain ⟨hflat, harrivals⟩ := BlockStack.run_chain conditional.build.run stack []
  rw [hflat] at hok
  have hyields : stack.Yields [] conditional.build ()
      (stack.chain.arrivals conditional.build.run [])
      (BlockStack.run conditional.build.run stack []).2.1
      (conditional.pushed stack.chain) := by
    refine ⟨Prod.ext hok (Prod.ext rfl ?_), harrivals.symm⟩
    rw [pushed, hflat]
  rw [Chain.emitted]
  have hlowers : ∃ lowering : Lowering, conditional.LowersTo lowering ∧
      (stack.chain.arrivals conditional.build.run []).map Arrival.element =
        lowering.code ∧ lowering.EndsClosed ∧
      (lowering.IsUncrossed (conditional.pushed stack.chain) →
        lowering.KeepsApart) := by
    obtain ⟨condition, thenHandler, elseHandler?⟩ := conditional
    cases elseHandler? with
    | none => exact lowers_ifThen hyields
    | some elseHandler => exact lowers_ifThenElse hyields
  obtain ⟨lowering, hto, hcode, hclosed, hapart⟩ := hlowers
  refine ⟨lowering, hto, hcode, fun huncrossed => ?_⟩
  have hnodup := hyields.grows.nodup
  have hplaced : (lowering.code.filterMap ElementOf.placed?).Nodup := by
    rw [← hcode, List.filterMap_map]
    exact hnodup
  exact Lowering.decides hplaced hclosed (hapart huncrossed)

/-- The first arm returns or throws, the second one loops. -/
def leaveOrLoop : Conditional where
  condition := .zero .eq
  thenHandler :=
    .ifThen (.null .eq) (.push (.methodReturn .void) .done) (.push .athrow .done)
  elseHandler? := some <| .freshLabel fun loop =>
    .push (.label loop) (.push (.branch (.test (.zero .ne) loop)) .done)

/-- A method body without elements. -/
def emptyChain : Chain (List Element) :=
  .terminal (.buffered (.withInitialLocals 0))

/-- What the handlers of its arms push themselves. -/
def leaveOrLoopPushed : List Element :=
  [.methodReturn .void, .athrow, .label ⟨8⟩, .branch (.test (.zero .ne) ⟨8⟩)]

/-- What it is lowered to.  There is no jump over the second arm. -/
def leaveOrLoopLowering : Lowering where
  condition := .zero .eq
  breakLabel := ⟨0⟩
  thenStart := ⟨2⟩
  thenStop := ⟨3⟩
  thenPart :=
    [.label ⟨5⟩, .branch (.test (.null .ne) ⟨4⟩), .methodReturn .void,
      .label ⟨6⟩, .label ⟨4⟩, .athrow]
  jumps := false
  elseArm? := some
    { start := ⟨1⟩, stop := ⟨7⟩
      part := [.label ⟨8⟩, .branch (.test (.zero .ne) ⟨8⟩)] }

theorem leaveOrLoop_lowers :
    emptyChain.emitted leaveOrLoop.build.run [] = leaveOrLoopLowering.code ∧
      ∃ lowering : Lowering, leaveOrLoop.LowersTo lowering ∧
        emptyChain.emitted leaveOrLoop.build.run [] = lowering.code ∧
        lowering.Decides := by
  have hbare : emptyChain.IsBare := trivial
  have hok : (emptyChain.run leaveOrLoop.build.run []).1 = .ok () := by
    decide +kernel
  have hpushed : leaveOrLoop.pushed emptyChain = leaveOrLoopPushed := by
    decide +kernel
  have hcode : emptyChain.emitted leaveOrLoop.build.run [] =
      leaveOrLoopLowering.code := by
    decide +kernel
  obtain ⟨lowering, hto, hlowering, hdecides⟩ := lowers hbare leaveOrLoop hok
  rw [hpushed] at hdecides
  refine ⟨hcode, lowering, hto, hlowering, hdecides ?_⟩
  -- the code can be read in one way only
  obtain ⟨hthen, helse, hdelimiters⟩ := Lowering.code_unique
    (by rw [← hlowering, hcode]; decide) (hlowering.symm.trans hcode)
  refine ⟨?_, ?_, ?_⟩
  · rw [hdelimiters]
    decide
  · rw [hthen, helse]
    decide
  · rw [hthen, helse]
    decide

end Conditional

end JvmMethod
