import JvmMethod.Scope
import JvmMethod.Transform

/-!
# Structured code

Blocks, conditionals and transformed stretches of code, made out of what a
builder offers.  The bodies are scripts, so they may contain such constructs in
turn.  A body that fails makes the whole construct fail on the spot, before the
block is closed or the transform has ended.

The two arms of `ifThenElse` are blocks one after the other.  The first begins
with a branch on the negated condition to the second; it ends with a jump over
the second unless its end is unreachable.
-/

namespace JvmMethod

namespace Build

variable {ω : Type}

/-- Pushes a conditional branch. -/
def branch (condition : Condition) (target : Label) : Build ω Unit :=
  push (.branch (.test condition target))

/-- Pushes a jump. -/
def goto (target : Label) : Build ω Unit :=
  push (.branch (.goto target))

/-- Places a label. -/
def place (label : Label) : Build ω Unit :=
  push (.label label)

/-- Makes a label and places it right away. -/
def newBoundLabel : Build ω Label := do
  let label ← freshLabel
  place label
  return label

/-- Works inside a block whose break label is placed right behind it. -/
def block (body : Build ω Unit) : Build ω Unit := do
  let breakLabel ← freshLabel
  let block ← openBlock breakLabel
  let ((), block) ← within block body
  let _ ← closeBlock block
  place breakLabel

/-- Works inside a block that is skipped unless the condition holds. -/
def ifThen (condition : Condition) (body : Build ω Unit) : Build ω Unit := do
  let breakLabel ← freshLabel
  let block ← openBlock breakLabel
  let ((), block) ← within block do
    branch condition.negate breakLabel
    body
  let _ ← closeBlock block
  place breakLabel

/-- Works inside a block for either outcome of the condition. -/
def ifThenElse (condition : Condition) (thenBody elseBody : Build ω Unit) :
    Build ω Unit := do
  let breakLabel ← freshLabel
  let elseStart ← freshLabel
  let thenBlock ← openBlock breakLabel
  let ((), thenBlock) ← within thenBlock do
    branch condition.negate elseStart
    thenBody
  let ((), thenBlock) ← within thenBlock do
    if thenBlock.reachable then goto breakLabel
  let _ ← closeBlock thenBlock
  let elseBlock ← openBlockAt elseStart breakLabel
  let ((), elseBlock) ← within elseBlock elseBody
  let _ ← closeBlock elseBlock
  place breakLabel

/-- Works on the input of a transform, from its start to its end. -/
def transforming (transform : Transform ω) (body : Build ω Unit) :
    Build ω Unit := do
  transform.atStart
  transform.input .chained body
  transform.atEnd

/-- Gives elements to a transform one after the other. -/
def acceptEach (transform : Transform ω) : List Element → Build ω Unit
  | [] => pure ()
  | element :: elements => do
      transform.accept element
      acceptEach transform elements

/-- Feeds elements through a transform, from its start to its end. -/
def transformElements (elements : List Element) (transform : Transform ω) :
    Build ω Unit := do
  transform.atStart
  acceptEach transform elements
  transform.atEnd

end Build

end JvmMethod
