import JvmMethod.Proofs.BlockInterference
import JvmMethod.Proofs.LabelOrder
import JvmMethod.Proofs.RegionForest

/-!
# Regions of blocks

A block places its labels on the terminal itself, past all that is in between,
while what is pushed inside may go through transforms, which may open blocks of
their own.  Whoever opens a block works inside it until the block is closed, or
dropped; in the meantime there is nobody else to do anything with the builders.

`Chain.Works` is a script that handles its blocks so, with what the terminal
receives meanwhile as events: the script may be one of the library, and the
blocks may be opened at any place in the chain.

* `Chain.Works.arrivals_eq`: the events are what arrives.
* `Chain.Works.wellNested`: they are well nested.
* `Chain.Works.enclosed`, `Chain.Works.block`: what is done inside a block may be
  looked at on its own.
* `Chain.Works.regions_nest`: so the regions of the blocks that are closed are a
  forest in the code, and no scope between the labels of a block is inverted.
-/

namespace JvmMethod

variable {ω α β : Type}

/-- The labels of a block around its region. -/
def Block.region (block : Block) : Region where
  start := block.startLabel
  stop := block.stopLabel

/-- Nothing that is done inside a block changes its labels. -/
theorem Script.inBlock_region (script : Script ω α) (block : Block) :
    (script.inBlock block).Ensures fun (_, last) => last.region = block.region := by
  have hnote : ∀ (last : Block) element answer, last.region = block.region →
      (last.noteAnswer element answer).region = block.region := by
    intro last element answer hlast
    cases answer <;> exact hlast
  refine script.asks_any.ensures_inBlock hnote ?_ rfl
  intro last kind _ hlast
  unfold Block.allocate
  split <;> exact hlast

namespace Chain

section Labels

variable {chain opened : Chain ω} {ambient between : ω} {block : Block}

/-- What arrives when a block is opened is its start label. -/
theorem arrivals_openBlockAt (chain : Chain ω) (ambient : ω)
    (startLabel breakLabel : Label) :
    chain.arrivals (Build.openBlockAt startLabel breakLabel).run ambient =
      Request.arrivals (.terminalPush (.label startLabel))
        (chain.bottom.freshLabel.2.push (.label startLabel)).1 := by
  have hfresh : Request.freshLabel.IsPast := trivial
  have hterminal : Request.terminal.IsPast := trivial
  have hpush : (Request.terminalPush (.label startLabel)).IsPast := trivial
  rw [Build.run_openBlockAt, arrivals_past _ _ hfresh, arrivals_ask_topLocal,
    arrivals_past _ _ hterminal, arrivals_past _ _ hpush, arrivals_done]
  simp only [Terminal.answer, bottom_withBottom, Request.arrivals, List.nil_append,
    List.append_nil]

theorem arrivals_openBlockFrom {startLabel? : Option Label} {breakLabel : Label}
    (h : chain.run (Build.openBlockFrom startLabel? breakLabel).run ambient =
      (.ok block, opened, between)) :
    chain.arrivals (Build.openBlockFrom startLabel? breakLabel).run ambient =
      [.past (.label block.startLabel)] := by
  have hat {chain : Chain ω} {startLabel : Label}
      (h : chain.run (Build.openBlockAt startLabel breakLabel).run ambient =
        (.ok block, opened, between)) :
      chain.arrivals (Build.openBlockAt startLabel breakLabel).run ambient =
        [.past (.label block.startLabel)] := by
    rw [arrivals_openBlockAt]
    rw [run_openBlockAt] at h
    have hblock := congrArg Prod.fst h
    cases hplaced : (chain.bottom.freshLabel.2.push (.label startLabel)).1 with
    | error fault =>
      rw [hplaced] at hblock
      cases hblock
    | ok placed =>
      rw [hplaced] at hblock
      cases hblock
      rfl
  cases startLabel? with
  | some startLabel => exact hat h
  | none =>
    have hfresh : Request.freshLabel.IsPast := trivial
    have hopen : (Build.openBlockFrom none breakLabel : Build ω Block).run =
        .ask .freshLabel fun startLabel =>
          (Build.openBlockAt startLabel breakLabel).run := rfl
    rw [hopen, run_past _ _ hfresh] at h
    rw [hopen, arrivals_past _ _ hfresh]
    exact hat h

/-- What arrives when a block is closed is its stop label. -/
theorem arrivals_closeBlock {summary : BlockSummary}
    (h : chain.run (Build.closeBlock block).run ambient =
      (.ok summary, opened, between)) :
    chain.arrivals (Build.closeBlock block).run ambient =
      [.past (.label block.stopLabel)] := by
  have hpush : (Request.terminalPush (.label block.stopLabel)).IsPast := trivial
  have hterminal : Request.terminal.IsPast := trivial
  rw [Build.run_closeBlock, run_past _ _ hpush] at h
  rw [Build.run_closeBlock, arrivals_past _ _ hpush]
  simp only [Terminal.answer] at h ⊢
  rcases hplaced : chain.bottom.push (.label block.stopLabel) with
    ⟨fault | ⟨⟩, state⟩
  · rw [hplaced] at h
    simp only [run_done] at h
    cases congrArg Prod.fst h
  · simp only [arrivals_past _ _ hterminal, arrivals_done, Request.arrivals,
      List.append_nil]

end Labels

section Builds

variable {chain after : Chain ω} {ambient between later : ω} {result : α}

/-- A build that succeeds, and what follows it. -/
theorem run_bind_ok {build : Build ω α} {next : α → Build ω β}
    (h : chain.run build.run ambient = (.ok result, after, between)) :
    chain.run (build >>= next).run ambient = after.run (next result).run between := by
  rw [Build.run_bind, run_bind, h]

/-- What is done inside a block, seen from below. -/
theorem run_inBlock_of_run {script : Script ω α} {block last : Block}
    (h : (Chain.block block chain).run script ambient =
      (result, .block last after, later)) :
    chain.run (script.inBlock block) ambient = ((result, last), after, later) := by
  simp only [run] at h
  grind

theorem run_within_ok {body : Build ω α} {block last : Block}
    (h : (Chain.block block chain).run body.run ambient =
      (.ok result, .block last after, later)) :
    chain.run (Build.within block body).run ambient =
      (.ok (result, last), after, later) := by
  change chain.run ((body.run.inBlock block).bind _) ambient = _
  rw [run_bind, run_inBlock_of_run h]
  exact run_done _ _ _

end Builds

/-- The script handles blocks as it should, and this is what the terminal
receives.  While a block is *held*, it is open over the chain, and the script may
go on to work inside it; in the end it closes the block, or drops it. -/
inductive Works : Option Block → Chain ω → {α : Type} → Script ω α → ω →
    List RegionEvent → Prop where
  /-- Anything, without looking for blocks in it. -/
  | plain {α : Type} (chain : Chain ω) (script : Script ω α) (ambient : ω) :
      Works none chain script ambient
        ((chain.arrivals script ambient).map .came)
  /-- One script, and then another. -/
  | bind {α β : Type} {held : Option Block} {chain : Chain ω} {script : Script ω α}
      {next : α → Script ω β} {ambient : ω} {early late : List RegionEvent}
      (first : Works none chain script ambient early)
      (rest : Works held (chain.run script ambient).2.1
        (next (chain.run script ambient).1) (chain.run script ambient).2.2 late) :
      Works held chain (script.bind next) ambient (early ++ late)
  /-- What a block passes on to the builder below. -/
  | forward {α : Type} {block : Block} {chain : Chain ω} {script : Script ω α}
      {ambient : ω} {events : List RegionEvent}
      (lower : Works none chain (script.inBlock block) ambient events) :
      Works none (.block block chain) script ambient events
  /-- What a transform does with the builder below. -/
  | output {α : Type} {layer : Layer} {stage : Transform ω} {chain : Chain ω}
      {script : Script ω α} {ambient : ω} {events : List RegionEvent}
      (lower : Works none chain
        (script.through layer fun element => (stage.accept element).run) ambient
        events) :
      Works none (.transform layer stage chain) script ambient events
  /-- Working on the input of a transform that is put over the builder. -/
  | input {α : Type} {layer : Layer} {stage : Transform ω} {chain : Chain ω}
      {script : Script ω α} {ambient : ω} {events : List RegionEvent}
      (upper : Works none (.transform layer stage chain) script ambient events) :
      Works none chain
        (script.through layer fun element => (stage.accept element).run) ambient
        events
  /-- Opening a block. -/
  | opened {α : Type} {startLabel? : Option Label} {breakLabel : Label}
      {block : Block} {chain opened : Chain ω} {ambient between : ω}
      {next : Except Fault Block → Script ω α} {events : List RegionEvent}
      (hopen : chain.run (Build.openBlockFrom startLabel? breakLabel).run ambient =
        (.ok block, opened, between))
      (rest : Works (some block) opened (next (.ok block)) between events) :
      Works none chain
        ((Build.openBlockFrom startLabel? breakLabel).run.bind next) ambient
        (.opened block.region :: events)
  /-- Working inside the block, which stays open. -/
  | inside {α β : Type} {block : Block} {chain : Chain ω} {body : Script ω α}
      {next : α × Block → Script ω β} {ambient : ω}
      {inner late : List RegionEvent}
      (work : Works none (.block block chain) body ambient inner)
      (rest : Works (some (chain.run (body.inBlock block) ambient).1.2)
        (chain.run (body.inBlock block) ambient).2.1
        (next (chain.run (body.inBlock block) ambient).1)
        (chain.run (body.inBlock block) ambient).2.2 late) :
      Works (some block) chain ((body.inBlock block).bind next) ambient
        (inner ++ late)
  /-- Closing the block with success. -/
  | closed {α : Type} {block : Block} {chain after : Chain ω} {ambient between : ω}
      {summary : BlockSummary} {next : Except Fault BlockSummary → Script ω α}
      {events : List RegionEvent}
      (hclose : chain.run (Build.closeBlock block).run ambient =
        (.ok summary, after, between))
      (rest : Works none after (next (.ok summary)) between events) :
      Works (some block) chain ((Build.closeBlock block).run.bind next) ambient
        (.closed block.region :: events)
  /-- Leaving the block for good without closing it. -/
  | dropped {α : Type} {block : Block} {chain : Chain ω} {script : Script ω α}
      {ambient : ω} {events : List RegionEvent}
      (rest : Works none chain script ambient events) :
      Works (some block) chain script ambient events

namespace Works

variable {held : Option Block} {chain : Chain ω} {script : Script ω α}
  {ambient : ω} {events : List RegionEvent}

/-- **The events are what the terminal receives.** -/
theorem arrivals_eq (h : Works held chain script ambient events) :
    chain.arrivals script ambient = events.map RegionEvent.arrival := by
  induction h with
  | plain chain script ambient => simp [Function.comp_def]
  | bind _ _ ihfirst ihrest =>
    rw [arrivals_bind, ihfirst, ihrest, List.map_append]
  | forward _ ih => exact ih
  | output _ ih => exact ih
  | input _ ih => exact ih
  | opened hopen _ ih =>
    rw [arrivals_bind, arrivals_openBlockFrom hopen, hopen, ih]
    rfl
  | inside _ _ ihwork ihrest =>
    rw [arrivals_bind, ihrest, List.map_append, ← ihwork]
    rfl
  | closed hclose _ ih =>
    rw [arrivals_bind, arrivals_closeBlock hclose, hclose, ih]
    rfl
  | dropped _ ih => exact ih

/-- **The events are well nested**, behind the start label of the block that is
held. -/
theorem wellNested (h : Works held chain script ambient events) :
    WellNested ((held.map fun block => .opened block.region).toList ++ events) := by
  induction h with
  | plain chain script ambient => exact .of_arrivals _
  | @bind _ _ held _ _ _ _ _ _ _ _ ihfirst ihrest =>
    cases held with
    | none => exact ihfirst.append ihrest
    | some block => exact ihfirst.open_append ihrest
  | forward _ ih => exact ih
  | output _ ih => exact ih
  | input _ ih => exact ih
  | opened _ _ ih => exact ih
  | @inside _ _ block chain body _ ambient _ _ _ _ ihwork ihrest =>
    have hregion := chain.run_ensures (body.inBlock_region block) ambient
    simp only [Option.map_some] at ihrest
    rw [hregion] at ihrest
    exact ihwork.open_append ihrest
  | @closed _ block _ _ _ _ _ _ _ _ _ ih =>
    exact .region block.region .nil ih
  | dropped _ ih => exact .dropped _ ih

section Builds

variable {opened worked after : Chain ω} {between later final : ω}
  {early inner late : List RegionEvent} {block last : Block}
  {summary : BlockSummary} {result : α} {startLabel? : Option Label}
  {breakLabel : Label}

/-- Doing nothing. -/
theorem nothing (chain : Chain ω) (result : α) (ambient : ω) :
    Works none chain (.done result) ambient [] := by
  have hplain := plain chain (.done result) ambient
  rwa [arrivals_done] at hplain

/-- A build that succeeds, and what follows it. -/
theorem bind_ok {build : Build ω α} {next : α → Build ω β}
    (first : Works none chain build.run ambient early)
    (hrun : chain.run build.run ambient = (.ok result, after, between))
    (rest : Works held after (next result).run between late) :
    Works held chain (build >>= next).run ambient (early ++ late) := by
  rw [Build.run_bind]
  refine .bind first ?_
  rw [hrun]
  exact rest

/-- A label that is made first. -/
theorem bind_freshLabel {next : Label → Build ω α}
    (rest : Works held (chain.withBottom chain.bottom.freshLabel.2)
      (next chain.bottom.freshLabel.1).run ambient events) :
    Works held chain (Build.freshLabel >>= next).run ambient events := by
  have hpast : Request.freshLabel.IsPast := trivial
  have hsend : Works none chain (.send .freshLabel) ambient [] := by
    have hplain := plain chain (.send .freshLabel) ambient
    rwa [Script.send, arrivals_past _ _ hpast, arrivals_done] at hplain
  have hrun : (Build.freshLabel >>= next).run =
      (Script.send .freshLabel).bind fun label => (next label).run := rfl
  rw [hrun]
  refine hsend.bind ?_
  rw [Script.send, run_past _ _ hpast, run_done]
  exact rest

variable {body : Build ω Unit}
  (hopen : chain.run (Build.openBlockFrom startLabel? breakLabel).run ambient =
    (.ok block, opened, between))
  (hbody : (Chain.block block opened).run body.run between =
    (.ok (), .block last worked, later))
  (hclose : worked.run (Build.closeBlock last).run later =
    (.ok summary, after, final))
include hopen hbody hclose

theorem run_enclosed_ok :
    chain.run (Build.enclosed startLabel? breakLabel body).run ambient =
      (.ok summary, after, final) := by
  rw [Build.enclosed, run_bind_ok hopen, run_bind_ok (run_within_ok hbody)]
  exact hclose

variable (work : Works none (.block block opened) body.run between inner)
include work

/-- **A block around a body** that succeeds: its labels, and in between what the
body does inside. -/
theorem enclosed :
    Works none chain (Build.enclosed startLabel? breakLabel body).run ambient
      (.opened block.region :: (inner ++ [.closed block.region])) := by
  have hinner := run_inBlock_of_run hbody
  have hregion : last.region = block.region := by
    have hkept := opened.run_ensures (body.run.inBlock_region block) between
    rwa [hinner] at hkept
  have hclosing : (Build.closeBlock last).run =
      ((Build.closeBlock last).run : Script ω _).bind .done := (Script.bind_done _).symm
  rw [Build.enclosed, Build.run_bind]
  refine .opened hopen ?_
  change Works (some block) opened (((body.run.inBlock block).bind _).bind _) between _
  rw [Script.bind_assoc]
  refine .inside work ?_
  rw [hinner]
  change Works (some last) worked (Build.closeBlock last).run later _
  rw [hclosing, ← hregion]
  exact .closed hclose (nothing _ _ _)

/-- What is done behind a block. -/
theorem enclosed_bind {next : BlockSummary → Build ω α}
    (rest : Works held after (next summary).run final late) :
    Works held chain (Build.enclosed startLabel? breakLabel body >>= next).run ambient
      (.opened block.region :: (inner ++ .closed block.region :: late)) := by
  have hblock := enclosed hopen hbody hclose work
  have hrun := run_enclosed_ok hopen hbody hclose
  simpa only [List.cons_append, List.append_assoc, List.nil_append] using
    hblock.bind_ok hrun rest

end Builds

/-- A block with a break label behind it. -/
theorem block {body : Build ω Unit} {events : List RegionEvent}
    (h : Works held (chain.withBottom chain.bottom.freshLabel.2)
      (do
        let _ ← Build.enclosed none chain.bottom.freshLabel.1 body
        Build.place chain.bottom.freshLabel.1).run ambient events) :
    Works held chain (Build.block body).run ambient events := by
  have hblock : (Build.block body : Build ω Unit) =
      (do
        let breakLabel ← Build.freshLabel
        let _ ← Build.enclosed none breakLabel body
        Build.place breakLabel) := by
    simp only [Build.block, Build.enclosed, Build.openBlockFrom, bind_assoc]
  rw [hblock]
  exact bind_freshLabel h

/-- A block passes on what is pushed. -/
theorem push_forward {block : Block} {element : Element}
    (h : Works none chain (Build.push element).run ambient events) :
    Works none (.block block chain) (Build.push element).run ambient events := by
  have hpush : (Build.push element : Build ω Unit).run.inBlock block =
      (Build.push element).run.bind fun answer =>
        .done (answer, block.noteAnswer element answer) := rfl
  refine .forward ?_
  rw [hpush, ← List.append_nil events]
  exact h.bind (nothing _ _ _)

/-- A transform does something of its own for what is pushed. -/
theorem push_output {layer : Layer} {stage : Transform ω} {element : Element}
    (h : Works none chain (stage.accept element).run ambient events) :
    Works none (.transform layer stage chain) (Build.push element).run ambient
      events := by
  have hpush : ((Build.push element : Build ω Unit).run.through layer
      fun element => (stage.accept element).run) =
      (stage.accept element).run.bind .done := rfl
  refine .output ?_
  rw [hpush, Script.bind_done]
  exact h

end Works

end Chain

/-- How often a label is placed. -/
theorem count_label (elements : List Element) (label : Label) :
    elements.count (.label label) =
      (elements.filterMap ElementOf.placed?).count label := by
  induction elements with
  | nil => rfl
  | cons element elements ih =>
    cases element with
    | label placed => simp [List.count_cons, ElementOf.placed?, ih]
    | _ => simpa [ElementOf.placed?, List.filterMap_cons] using ih

theorem count_label_eq_one {elements : List Element} {label : Label}
    (honce : (elements.filterMap ElementOf.placed?).Nodup)
    (hmem : .label label ∈ elements) : elements.count (.label label) = 1 := by
  rw [count_label]
  exact List.count_eq_one_of_mem honce (List.mem_filterMap.2 ⟨_, hmem, rfl⟩)

namespace Chain

/-- Labels are placed once, whatever is done on a chain. -/
theorem nodup_placed (chain : Chain ω) (script : Script ω α) (ambient : ω) :
    ((chain.emitted script ambient).filterMap ElementOf.placed?).Nodup := by
  have hnodup := (chain.grows_run ambient script).nodup
  rw [emitted, List.filterMap_map]
  exact hnodup

namespace Works

variable {chain : Chain ω} {script : Script ω α} {ambient : ω}
  {events : List RegionEvent}

/-- **Blocks make a forest of the code.**  What the terminal receives are the
elements of the events.  The labels of every block that is closed are placed
once, the start label first, and what is received between them is what came while
the block was open.  Of the regions of two blocks one is inside the other, or
they are apart.  In a finished body no block ends before it starts, and a body
that cannot be finished is not refused for the scope of a local variable between
the labels of a block. -/
theorem regions_nest (hnew : chain.bottom.IsNew)
    (h : Works none chain script ambient events) :
    chain.emitted script ambient = events.map RegionEvent.element ∧
    (∀ region, .closed region ∈ events →
      (chain.emitted script ambient).count (.label region.start) = 1 ∧
      (chain.emitted script ambient).count (.label region.stop) = 1 ∧
      ∃ before inner after, events =
        before ++ .opened region :: (inner ++ .closed region :: after)) ∧
    (∀ region other, .closed region ∈ events → .closed other ∈ events →
      region ≠ other → ∀ first last first' last',
      (chain.emitted script ambient)[first]? = some (.label region.start) →
      (chain.emitted script ambient)[last]? = some (.label region.stop) →
      (chain.emitted script ambient)[first']? = some (.label other.start) →
      (chain.emitted script ambient)[last']? = some (.label other.stop) →
      NestedOrApart first last first' last') ∧
    ∀ region, .closed region ∈ events →
      (∀ body, (chain.run script ambient).2.1.bottom.finish = .ok body →
        ∃ low high : CodeOffset, body.labelOffset? region.start = some low ∧
          body.labelOffset? region.stop = some high ∧ low ≤ high) ∧
      (chain.run script ambient).2.1.bottom.finish ≠
        .error (.invalidLocalScope region.start region.stop) := by
  have helements : chain.emitted script ambient = events.map RegionEvent.element := by
    rw [emitted, h.arrivals_eq, List.map_map]
    rfl
  have honce := chain.nodup_placed script ambient
  have hrelates := chain.relates_run script ambient Direct.isKept_orders
    (hnew.relates fun initial => .nil (.withInitialLocals initial))
  rw [List.nil_append] at hrelates
  rw [helements] at honce hrelates ⊢
  have hnested : WellNested events := h.wellNested
  obtain ⟨spans, hforest⟩ := hnested.exists_forest
  refine ⟨rfl, ?once, ?apart, ?scope⟩
  case once =>
    intro region hclosed
    obtain ⟨span, hspan, rfl⟩ := hforest.covers region hclosed
    refine ⟨?_, ?_, hforest.exists_split hspan⟩
    · exact count_label_eq_one honce
        (List.mem_of_getElem? (hforest.element_first hspan))
    · exact count_label_eq_one honce
        (List.mem_of_getElem? (hforest.element_last hspan))
  case apart =>
    intro region other hclosed hclosed' hne first last first' last'
      hfirst hlast hfirst' hlast'
    obtain ⟨span, hspan, rfl⟩ := hforest.covers region hclosed
    obtain ⟨span', hspan', rfl⟩ := hforest.covers other hclosed'
    cases place_unique honce (hforest.element_first hspan) hfirst
    cases place_unique honce (hforest.element_last hspan) hlast
    cases place_unique honce (hforest.element_first hspan') hfirst'
    cases place_unique honce (hforest.element_last hspan') hlast'
    exact hforest.fits_of_ne hspan hspan' fun hsame => hne (by rw [hsame])
  case scope =>
    intro region hclosed
    obtain ⟨span, hspan, rfl⟩ := hforest.covers region hclosed
    obtain ⟨before, inner, after, hsplit⟩ := hforest.exists_split hspan
    rw [hsplit] at hrelates
    simp only [List.map_append, List.map_cons, RegionEvent.element_opened,
      RegionEvent.element_closed] at hrelates
    exact hrelates.scope_ordered

section Boxes

/-- A transform that puts every element into a block of its own. -/
def boxing : Transform Unit where
  accept element := Build.block (Build.push element)

/-- A terminal that has made labels and taken elements. -/
def boxesIn (labels : Nat) (elements : List Element) : Chain Unit :=
  .terminal (elements.foldl (fun terminal element => (terminal.push element).2)
    (.buffered { labels := ⟨Array.replicate labels none⟩, topLocal := 0 }))

/-- The transform over such a terminal. -/
def boxingChain (labels : Nat) (elements : List Element) : Chain Unit :=
  .transform .chained boxing (boxesIn labels elements)

/-- A block that is opened over the terminal. -/
def openBox (start stop leave : Nat) : Block where
  startLabel := ⟨start⟩
  stopLabel := ⟨stop⟩
  breakLabel := ⟨leave⟩
  topLocal := 0
  terminalTop := 0

/-- A block around one instruction, over the transform. -/
def boxScript : Script Unit (Except Fault BlockSummary) :=
  (Build.enclosed none ⟨9⟩ (Build.push (.operator .nop))).run

/-- The block, and inside it the one that the transform opens. -/
def boxEvents : List RegionEvent :=
  [.opened ⟨⟨0⟩, ⟨1⟩⟩, .opened ⟨⟨3⟩, ⟨4⟩⟩, .came (.through (.operator .nop)),
    .closed ⟨⟨3⟩, ⟨4⟩⟩, .came (.through (.label ⟨2⟩)), .closed ⟨⟨0⟩, ⟨1⟩⟩]

/-- What the terminal gets before the outer block is closed. -/
def boxElements : List Element :=
  [.label ⟨0⟩, .label ⟨3⟩, .operator .nop, .label ⟨4⟩, .label ⟨2⟩]

/-- The block that the transform opens. -/
theorem works_boxing :
    Works none (boxesIn 2 [.label ⟨0⟩]) (boxing.accept (.operator .nop)).run ()
      [.opened ⟨⟨3⟩, ⟨4⟩⟩, .came (.through (.operator .nop)), .closed ⟨⟨3⟩, ⟨4⟩⟩,
        .came (.through (.label ⟨2⟩))] := by
  have hopen : (boxesIn 3 [.label ⟨0⟩]).run (Build.openBlockFrom none ⟨2⟩).run () =
      (.ok (openBox 3 4 2), boxesIn 5 [.label ⟨0⟩, .label ⟨3⟩], ()) := rfl
  have hbody : (Chain.block (openBox 3 4 2) (boxesIn 5 [.label ⟨0⟩, .label ⟨3⟩])).run
      (Build.push (.operator .nop)).run () =
      (.ok (), .block ((openBox 3 4 2).note (.operator .nop))
        (boxesIn 5 [.label ⟨0⟩, .label ⟨3⟩, .operator .nop]), ()) := rfl
  have hclose : (boxesIn 5 [.label ⟨0⟩, .label ⟨3⟩, .operator .nop]).run
      (Build.closeBlock ((openBox 3 4 2).note (.operator .nop))).run () =
      (.ok ((openBox 3 4 2).note (.operator .nop)).summary,
        boxesIn 5 [.label ⟨0⟩, .label ⟨3⟩, .operator .nop, .label ⟨4⟩], ()) := rfl
  exact .block (enclosed_bind hopen hbody hclose (plain _ _ _) (plain _ _ _))

/-- The block around it. -/
theorem works_boxScript : Works none (boxingChain 0 []) boxScript () boxEvents := by
  have hopen : (boxingChain 0 []).run (Build.openBlockFrom none ⟨9⟩).run () =
      (.ok (openBox 0 1 9), boxingChain 2 [.label ⟨0⟩], ()) := rfl
  have hbody : (Chain.block (openBox 0 1 9) (boxingChain 2 [.label ⟨0⟩])).run
      (Build.push (.operator .nop)).run () =
      (.ok (), .block ((openBox 0 1 9).note (.operator .nop))
        (boxingChain 5 boxElements), ()) := rfl
  have hclose : (boxingChain 5 boxElements).run
      (Build.closeBlock ((openBox 0 1 9).note (.operator .nop))).run () =
      (.ok ((openBox 0 1 9).note (.operator .nop)).summary,
        boxingChain 5 (boxElements ++ [.label ⟨1⟩]), ()) := rfl
  exact enclosed hopen hbody hclose (.push_forward (.push_output works_boxing))

/-- The body that comes of it. -/
def boxBody : MethodBody where
  code := #[0]
  maxLocals := 0
  labelOffsets := #[some 0, some 1, some 1, some 0, some 1]
  handlers := #[]
  lines := #[]
  localVariables := #[]
  localVariableTypes := #[]

/-- The region of the block that the transform opens is inside that of the other
one, and does not end before it starts. -/
theorem boxEvents_nest :
    (boxingChain 0 []).bottom.IsNew ∧
      Works none (boxingChain 0 []) boxScript () boxEvents ∧
      (boxingChain 0 []).emitted boxScript () = boxElements ++ [.label ⟨1⟩] ∧
      ((boxingChain 0 []).emitted boxScript ()).count (.label ⟨4⟩) = 1 ∧
      NestedOrApart 0 5 1 3 ∧
      ((boxingChain 0 []).run boxScript ()).2.1.bottom.finish = .ok boxBody ∧
      ∃ low high : CodeOffset, boxBody.labelOffset? ⟨3⟩ = some low ∧
        boxBody.labelOffset? ⟨4⟩ = some high ∧ low ≤ high := by
  have hnew : (boxingChain 0 []).bottom.IsNew := ⟨0, rfl⟩
  obtain ⟨hemitted, honce, hapart, hscope⟩ := regions_nest hnew works_boxScript
  have hinner : .closed ⟨⟨3⟩, ⟨4⟩⟩ ∈ boxEvents := by decide
  have houter : .closed ⟨⟨0⟩, ⟨1⟩⟩ ∈ boxEvents := by decide
  have hnested : NestedOrApart 0 5 1 3 := by
    refine hapart _ _ houter hinner (by decide) 0 5 1 3 ?_ ?_ ?_ ?_ <;>
      (rw [hemitted]; rfl)
  have hfinish : ((boxingChain 0 []).run boxScript ()).2.1.bottom.finish =
      .ok boxBody := by
    decide +kernel
  exact ⟨hnew, works_boxScript, hemitted, (honce _ hinner).2.1, hnested, hfinish,
    (hscope _ hinner).1 _ hfinish⟩

end Boxes

end Works

end Chain

end JvmMethod
