import JvmMethod.Proofs.LabelNaming
import JvmMethod.Proofs.StructuredRuns
import JvmMethod.Proofs.TerminalContents

/-!
# A block right over a terminal

A block around a body places three labels, which are the next three of the
terminal: its start and its stop label around what comes from the body, and its
break label behind.  Nothing else of it reaches the terminal.

* `BlockStack.Encloses` says this of a body, and what it has been run on.
* `BlockStack.Encloses.of_run`: every block that succeeds goes like this.
* `BlockStack.Encloses.run_eq`: and the other way round, if the terminal hands out
  no slots meanwhile.
-/

namespace JvmMethod

theorem Terminal.freshLabel_withLabels (terminal : Terminal) (count : Nat) :
    (terminal.withLabels count).freshLabel.1 = ⟨terminal.labels.size + count⟩ := by
  rw [(freshLabel_eq _).1, size_withLabels]

theorem Terminal.topLocal_withLabels (terminal : Terminal) (count : Nat) :
    (terminal.withLabels count).topLocal = terminal.topLocal := by
  induction count with
  | zero => rfl
  | succ count ih => rw [withLabels, topLocal_freshLabel, ih]

theorem Terminal.HasTaken.withLabels {terminal : Terminal} {elements : List Element}
    (h : terminal.HasTaken elements) (count : Nat) :
    (terminal.withLabels count).HasTaken elements := by
  induction count with
  | zero => exact h
  | succ count ih => exact ih.freshLabel

theorem Terminal.topLocal_of_push {terminal next : Terminal} {element : Element}
    {answer : Except Fault Unit} (h : terminal.push element = (answer, next)) :
    next.topLocal = terminal.topLocal := by
  have htop := terminal.topLocal_push element
  rwa [h] at htop

/-- The block that is opened over a terminal. -/
def Terminal.openedBlock (terminal : Terminal) : Block where
  startLabel := ⟨terminal.labels.size + 1⟩
  stopLabel := ⟨terminal.labels.size + 2⟩
  breakLabel := ⟨terminal.labels.size⟩
  topLocal := terminal.topLocal
  terminalTop := terminal.topLocal

namespace BlockStack

variable {ω α β : Type} {stack middle after : BlockStack} {ambient between later : ω}
variable {block last : Block} {startLabel breakLabel : Label}
variable {terminal started inside closed ended : Terminal}

theorem run_bind_ok {build : Build ω α} {next : α → Build ω β} {result : α}
    (h : run build.run stack ambient = (.ok result, middle, between)) :
    run (build >>= next).run stack ambient = run (next result).run middle between := by
  rw [Build.run_bind, run_bind, h]

/-- Opening a block, if its start label can be placed. -/
theorem run_openBlockAt_ok
    (hpush : stack.terminal.freshLabel.2.push (.label startLabel) = (.ok (), terminal)) :
    run (Build.openBlockAt startLabel breakLabel).run stack ambient =
      (.ok { startLabel, stopLabel := stack.terminal.freshLabel.1, breakLabel
             topLocal := topLocal ⟨stack.blocks, stack.terminal.freshLabel.2⟩
             terminalTop := stack.terminal.freshLabel.2.topLocal },
        { stack with terminal }, ambient) := by
  rw [Build.run_openBlockAt]
  simp only [run, answer, hpush]
  rfl

theorem run_within_ok {body : Build ω α} {result : α}
    (h : run body.run ⟨block :: stack.blocks, stack.terminal⟩ ambient =
      (.ok result, ⟨last :: after.blocks, after.terminal⟩, later)) :
    run (Build.within block body).run stack ambient =
      (.ok (result, last), after, later) := by
  obtain ⟨answer, block', rest, final, later', hrun, hinner, -⟩ :=
    run_inBlock body.run block stack.blocks stack.terminal ambient
  rw [h] at hrun
  cases hrun
  change run ((body.run.inBlock block).bind _) stack ambient = _
  rw [run_bind, hinner]
  rfl

/-- Closing a block, if its stop label can be placed and no slots were handed out
below it. -/
theorem run_closeBlock_ok
    (hpush : stack.terminal.push (.label block.stopLabel) = (.ok (), terminal))
    (hquiet : terminal.topLocal = block.terminalTop) :
    run (Build.closeBlock block).run stack ambient =
      (.ok block.summary, { stack with terminal }, ambient) := by
  rw [Build.run_closeBlock]
  simp only [run, answer, hpush, hquiet, if_pos]

/-- What a block around a body does to a terminal: it places its three labels, and
the body is run in between. -/
structure Encloses (terminal : Terminal) (body : Build ω Unit) (ambient : ω)
    (started : Terminal) (last : Block) (inside closed ended : Terminal) (later : ω) :
    Prop where
  start : (terminal.withLabels 3).push (.label terminal.openedBlock.startLabel) =
    (.ok (), started)
  body : run body.run ⟨[terminal.openedBlock], started⟩ ambient =
    (.ok (), ⟨[last], inside⟩, later)
  stop : inside.push (.label last.stopLabel) = (.ok (), closed)
  leave : closed.push (.label terminal.openedBlock.breakLabel) = (.ok (), ended)

variable {body : Build ω Unit}

theorem Encloses.topLocal_started
    (h : Encloses terminal body ambient started last inside closed ended later) :
    started.topLocal = terminal.topLocal := by
  rw [Terminal.topLocal_of_push h.start, Terminal.topLocal_withLabels]

/-- The block that is opened gets the next three labels. -/
theorem openedBlock_eq (terminal : Terminal) :
    terminal.openedBlock =
      { startLabel := (terminal.withLabels 1).freshLabel.1
        stopLabel := (terminal.withLabels 2).freshLabel.1
        breakLabel := terminal.freshLabel.1
        topLocal := (terminal.withLabels 3).topLocal
        terminalTop := (terminal.withLabels 3).topLocal } := by
  rw [Terminal.freshLabel_withLabels, Terminal.freshLabel_withLabels,
    Terminal.topLocal_withLabels, terminal.freshLabel_eq.1]
  rfl

/-- No block comes or goes below the one that is open. -/
theorem no_blocks_of_run {script : Script ω α} {result : α} {blocks : List Block}
    (h : run script ⟨[block], started⟩ ambient =
      (result, ⟨last :: blocks, inside⟩, later)) : blocks = [] := by
  obtain ⟨answer, last', rest, final, later', hrun, hinner, -⟩ :=
    run_inBlock script block [] started ambient
  rw [h] at hrun
  cases hrun
  rw [(run_terminal _ started ambient).1] at hinner
  exact (congrArg (fun answer => answer.2.1.blocks) hinner).symm

theorem Encloses.of_run
    (h : run (Build.block body).run ⟨[], terminal⟩ ambient = (.ok (), after, later)) :
    ∃ started last inside closed ended,
      Encloses terminal body ambient started last inside closed ended later ∧
      after = ⟨[], ended⟩ := by
  have hblock : Yields ⟨[], terminal⟩ ambient (Build.block body) () _ after later :=
    ⟨h, rfl⟩
  obtain ⟨_, _, _, _, _, hbreak, h₁, -⟩ := hblock.of_bind
  obtain ⟨rfl, -, rfl, rfl⟩ := hbreak.of_freshLabel
  obtain ⟨block, _, _, _, _, hopen, h₂, -⟩ := h₁.of_bind
  obtain ⟨_, _, _, _, _, hstart, hopenAt, -⟩ := hopen.of_bind
  obtain ⟨rfl, -, rfl, rfl⟩ := hstart.of_freshLabel
  obtain ⟨started, hstarted, hopened, -, rfl, rfl⟩ := hopenAt.of_openBlockAt
  obtain ⟨⟨⟨⟩, last⟩, _, ⟨blocks, inside⟩, _, _, hwithin, h₃, -⟩ := h₂.of_bind
  obtain ⟨summary, _, _, _, _, hclose, hplace, -⟩ := h₃.of_bind
  have hbody := hwithin.of_within.run_eq
  obtain ⟨closed, hclosed, -, -, rfl, rfl⟩ := hclose.of_closeBlock
  obtain ⟨ended, hended, -, rfl, rfl⟩ := hplace.of_push
  obtain rfl := no_blocks_of_run hbody
  refine ⟨started, last, inside, closed, ended, ⟨?_, ?_, hclosed, ?_⟩, rfl⟩
  · rw [openedBlock_eq]
    exact hstarted
  · rw [openedBlock_eq]
    rw [hopened] at hbody
    exact hbody
  · rw [openedBlock_eq]
    exact hended

/-- A block goes around a body, if the terminal hands out no slots meanwhile. -/
theorem Encloses.run_eq
    (h : Encloses terminal body ambient started last inside closed ended later)
    (hquiet : closed.topLocal = last.terminalTop) :
    run (Build.block body).run ⟨[], terminal⟩ ambient = (.ok (), ⟨[], ended⟩, later) := by
  have hstart := h.start
  have hbody := h.body
  have hleave := h.leave
  rw [openedBlock_eq] at hstart hbody hleave
  have hopen : run (Build.openBlockAt (terminal.withLabels 1).freshLabel.1
      terminal.freshLabel.1).run ⟨[], terminal.withLabels 2⟩ ambient = _ :=
    run_openBlockAt_ok hstart
  have hwithin : run (Build.within _ body).run ⟨[], started⟩ ambient =
      (.ok ((), last), ⟨[], inside⟩, later) := run_within_ok hbody
  have hclose : run (Build.closeBlock last).run ⟨[], inside⟩ later =
      (.ok last.summary, ⟨[], closed⟩, later) := run_closeBlock_ok h.stop hquiet
  have hbreak : run (Build.freshLabel : Build ω Label).run ⟨[], terminal⟩ ambient =
      (.ok terminal.freshLabel.1, ⟨[], terminal.withLabels 1⟩, ambient) := rfl
  have hfresh : run (Build.freshLabel : Build ω Label).run ⟨[], terminal.withLabels 1⟩
      ambient = (.ok (terminal.withLabels 1).freshLabel.1,
        ⟨[], terminal.withLabels 2⟩, ambient) := rfl
  have hplace : run (Build.place terminal.freshLabel.1).run ⟨[], closed⟩ later =
      (.ok (), ⟨[], ended⟩, later) := by
    simp only [Build.place, Build.push, Script.send, ExceptT.run_mk, run, answer, hleave]
    rfl
  have hopened : run (Build.openBlock terminal.freshLabel.1).run
      ⟨[], terminal.withLabels 1⟩ ambient = _ := (run_bind_ok hfresh).trans hopen
  exact (run_bind_ok hbreak).trans ((run_bind_ok hopened).trans
    ((run_bind_ok hwithin).trans ((run_bind_ok hclose).trans hplace)))

end BlockStack

end JvmMethod
