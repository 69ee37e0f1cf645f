import JvmMethod.Script

/-!
# Working inside a block

`Script.inBlock` is the layer of a block: it answers requests for local slots
from the block's own supply, notes every element that goes through, and passes
on all else.

Opening a block places its start label, and closing it its stop label, on the
terminal itself, so that no transform in between sees them.  Closing fails if
the terminal handed out slots meanwhile, since they may be slots of the block.
-/

namespace JvmMethod

variable {ω α : Type}

/-- Runs a script on a block, and gives what became of the block. -/
def Script.inBlock (block : Block) : Script ω α → Script ω (α × Block)
  | .done result => .done (result, block)
  | .ask (.push element) next =>
      .ask (.push element) fun answer =>
        (next answer).inBlock (block.noteAnswer element answer)
  | .ask (.allocate kind) next =>
      (next (block.allocate kind).1).inBlock (block.allocate kind).2
  | .ask .topLocal next => (next block.topLocal).inBlock block
  | .ask .layers next =>
      .ask .layers fun layers => (next (.block block :: layers)).inBlock block
  | .ask request next =>
      .ask request fun answer => (next answer).inBlock block
  | .read next => .read fun state => (next state).inBlock block
  | .change f next => .change f (next.inBlock block)

namespace Build

/-- Opens a block whose start label was made ahead of time. -/
def openBlockAt (startLabel breakLabel : Label) : Build ω Block := do
  let stopLabel ← freshLabel
  let topLocal ← topLocal
  let terminal ← terminal
  let terminalTop := terminal.topLocal
  terminalPush (.label startLabel)
  return { startLabel, stopLabel, breakLabel, topLocal, terminalTop }

/-- Opens a block with a given break label. -/
def openBlock (breakLabel : Label) : Build ω Block := do
  let startLabel ← freshLabel
  openBlockAt startLabel breakLabel

/-- Works inside a block.  A failure leaves the block for good. -/
def within (block : Block) (body : Build ω α) : Build ω (α × Block) :=
  ExceptT.mk do
    match ← body.run.inBlock block with
    | (.ok result, block) => return .ok (result, block)
    | (.error fault, _) => return .error fault

/-- Closes a block. -/
def closeBlock (block : Block) : Build ω BlockSummary := do
  terminalPush (.label block.stopLabel)
  let found := (← terminal).topLocal
  if found = block.terminalTop then return block.summary
  else throw (.localSlotInterference block.terminalTop found)

end Build

end JvmMethod
