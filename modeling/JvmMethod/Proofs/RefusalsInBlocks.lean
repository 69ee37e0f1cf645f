import JvmMethod.Proofs.BlockStack
import JvmMethod.Proofs.RefusedPushes
import JvmMethod.Proofs.TerminalAgreement

/-!
# What a refused push leaves behind

The buffered terminal refuses only labels, and the direct one what it has found
out before it does anything, but for the offset of a branch.  The blocks over a
terminal wait for its answer, so that an element that it refuses has not gone
through them.

* `BlockStack.run_push_eq_error_iff`: a push through blocks fails as it fails
  below them.
* `refused_push_leaves`: both terminals, and any blocks over them.
-/

namespace JvmMethod

/-- A block takes no notice of an element that was refused. -/
theorem Block.map_noteAnswer_error (blocks : List Block) (element : Element)
    (fault : Fault) : blocks.map (·.noteAnswer element (.error fault)) = blocks :=
  List.map_id blocks

/-- **A push through blocks** fails if and only if the terminal refuses the
element, and for the same reason, and then the blocks are what they were. -/
theorem BlockStack.run_push_eq_error_iff {ω : Type} {stack : BlockStack}
    {ambient later : ω} {element : Element} {fault : Fault} {after : Chain ω} :
    stack.chain.run (Build.push element).run ambient =
        (.error fault, after, later) ↔
      ∃ next, stack.terminal.push element = (.error fault, next) ∧
        after = BlockStack.chain ⟨stack.blocks, next⟩ ∧ later = ambient := by
  rw [(run_chain _ stack ambient).1]
  rcases hpush : stack.terminal.push element with ⟨refused | ⟨⟩, next⟩
  · simp [Build.push, Script.send, run, answer, hpush, Block.map_noteAnswer_error,
      eq_comm]
  · simp [Build.push, Script.send, run, answer, hpush]

/-- **What a refused push leaves behind.**  The direct terminal is left as it was,
unless it was a jump or a conditional branch to a label that is too far away, and
then there is its opcode more.  The buffered terminal is left as it was.  Through
any blocks the same push fails for the same reason, and no block has changed. -/
theorem refused_push_leaves :
    (∀ (direct next : Direct) (element : Element) (fault : Fault),
      direct.push element = (.error fault, next) ↔
        direct.Refuses element fault next) ∧
    (∀ (buffered next : Buffered) (element : Element) (fault : Fault),
      buffered.push element = (.error fault, next) ↔
        ∃ label, element = .label label ∧ buffered.labels.isBound label = true ∧
          fault = .labelAlreadyBound label ∧ next = buffered) ∧
    ∀ (ω : Type) (stack : BlockStack) (ambient later : ω) (element : Element)
        (fault : Fault) (after : Chain ω),
      stack.chain.run (Build.push element).run ambient =
          (.error fault, after, later) ↔
        ∃ next, stack.terminal.push element = (.error fault, next) ∧
          after = BlockStack.chain ⟨stack.blocks, next⟩ ∧ later = ambient := by
  refine ⟨?direct, ?buffered, ?blocks⟩
  case direct =>
    intro direct next element fault
    exact Direct.push_eq_error_iff
  case buffered =>
    intro buffered next element fault
    exact Buffered.push_eq_error_iff
  case blocks =>
    intro ω stack ambient later element fault after
    exact BlockStack.run_push_eq_error_iff

end JvmMethod
