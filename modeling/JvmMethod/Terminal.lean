import JvmMethod.Buffered

/-!
# Terminals

At the end of every chain of builders there is a terminal, which makes the
method body out of what reaches it.  There are two, which make the same body:
`Direct` encodes elements as they arrive, `Buffered` keeps them until the end.
-/

namespace JvmMethod

/-- What makes the method body. -/
inductive Terminal where
  | direct (state : Direct)
  | buffered (state : Buffered)
  deriving DecidableEq

namespace Terminal

/-- The next slot that the terminal hands out. -/
def topLocal : Terminal → Slot
  | .direct state => state.topLocal
  | .buffered state => state.topLocal

/-- Takes in the next element. -/
def push (terminal : Terminal) (element : Element) :
    Except Fault Unit × Terminal :=
  match terminal with
  | .direct state =>
      match state.push element with
      | (answer, state) => (answer, .direct state)
  | .buffered state =>
      match state.push element with
      | (answer, state) => (answer, .buffered state)

/-- Hands out a label. -/
def freshLabel (terminal : Terminal) : Label × Terminal :=
  match terminal with
  | .direct state =>
      match state.freshLabel with
      | (label, state) => (label, .direct state)
  | .buffered state =>
      match state.freshLabel with
      | (label, state) => (label, .buffered state)

/-- Hands out a local slot. -/
def allocate (terminal : Terminal) (kind : Kind) :
    Except Fault Slot × Terminal :=
  match terminal with
  | .direct state =>
      match state.allocate kind with
      | (answer, state) => (answer, .direct state)
  | .buffered state =>
      match state.allocate kind with
      | (answer, state) => (answer, .buffered state)

/-- Makes the method body. -/
def finish : Terminal → Except Fault MethodBody
  | .direct state => state.finish
  | .buffered state => state.finish

end Terminal

end JvmMethod
