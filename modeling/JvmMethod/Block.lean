import JvmMethod.Element

/-!
# Blocks

A block is a stretch of code between a start and a stop label, with a break
label behind it to jump to.  It hands out local slots of its own, from the next
free slot of what it was opened over, and gives them back when it is closed.

A block also knows two things about what was pushed through it.  It is *empty*
as long as nothing but pseudo-elements came, and it is *reachable* unless an
element came that never continues behind itself and no label came after that.
-/

namespace JvmMethod

/-- An open block. -/
structure Block where
  startLabel : Label
  stopLabel : Label
  breakLabel : Label
  /-- May control get to the end of what was pushed? -/
  reachable : Bool := true
  /-- Was an instruction pushed? -/
  hasInstructions : Bool := false
  /-- The next slot that the block hands out. -/
  topLocal : Slot
  /-- The next slot of the terminal at the time when the block was opened. -/
  terminalTop : Slot
  deriving DecidableEq

/-- What is known about a block that is closed. -/
structure BlockSummary where
  start : Label
  stop : Label
  breakLabel : Label
  reachable : Bool
  isEmpty : Bool
  deriving DecidableEq

namespace Block

/-- The block after an element went through it. -/
def note (block : Block) (element : Element) : Block :=
  { block with
    hasInstructions := block.hasInstructions || !element.isPseudo
    reachable :=
      if block.reachable then element.flow ≠ .leave else element.isLabel }

/-- The block after an element was pushed through it, which counts only if what
is below took it. -/
def noteAnswer (block : Block) (element : Element) :
    Except Fault Unit → Block
  | .ok () => block.note element
  | .error _ => block

/-- Hands out a local slot. -/
def allocate (block : Block) (kind : Kind) : Except Fault Slot × Block :=
  match claimSlot block.topLocal kind with
  | .error fault => (.error fault, block)
  | .ok topLocal => (.ok block.topLocal, { block with topLocal })

/-- What is known about the block when it is closed. -/
def summary (block : Block) : BlockSummary where
  start := block.startLabel
  stop := block.stopLabel
  breakLabel := block.breakLabel
  reachable := block.reachable
  isEmpty := !block.hasInstructions

end Block

end JvmMethod
