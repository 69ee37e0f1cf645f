import JvmMethod.Direct

/-!
# Keeping elements until the end

The buffered terminal keeps the elements that it receives, so that they can be
looked at, and encodes them all when the body is finished.  It looks at nothing
but labels: a label is placed once, and in the end every label that an element
mentions has to be placed, which is checked before anything is encoded.
-/

namespace JvmMethod

/-- A method body of which the elements up to now are kept. -/
structure Buffered where
  elements : Array Element := #[]
  /-- The number of elements in front of each label that was placed. -/
  labels : LabelTable := {}
  /-- The next slot to hand out. -/
  topLocal : Slot
  deriving DecidableEq

namespace Buffered

/-- A body without elements, with its first slots taken. -/
def withInitialLocals (topLocal : Slot) : Buffered :=
  { topLocal }

/-- A body without elements, with the slots of the receiver and the parameters
taken. -/
def ofMethod (flags : AccessFlags) (descriptor : MethodDescriptor) :
    Except Fault Buffered :=
  (parameterSlots flags descriptor).map withInitialLocals

/-- Takes in the next element. -/
def push (buffered : Buffered) (element : Element) :
    Except Fault Unit × Buffered :=
  match element with
  | .label label =>
      if buffered.labels.isBound label then
        (.error (.labelAlreadyBound label), buffered)
      else
        let position := buffered.elements.size
        (.ok (),
          { buffered with
            elements := buffered.elements.push element
            labels := buffered.labels.assign label position })
  | _ => (.ok (), { buffered with elements := buffered.elements.push element })

/-- Hands out a label. -/
def freshLabel (buffered : Buffered) : Label × Buffered :=
  let (label, labels) := buffered.labels.fresh
  (label, { buffered with labels })

/-- Hands out a local slot. -/
def allocate (buffered : Buffered) (kind : Kind) :
    Except Fault Slot × Buffered :=
  match claimSlot buffered.topLocal kind with
  | .error fault => (.error fault, buffered)
  | .ok topLocal => (.ok buffered.topLocal, { buffered with topLocal })

/-- The first label that an element mentions and that is not placed. -/
def unbound? (buffered : Buffered) : Option Label :=
  buffered.elements.findSome? fun element =>
    element.labels.find? fun label => ¬ buffered.labels.isBound label

/-- The direct terminal that knows the same labels and slots. -/
def resume (buffered : Buffered) : Direct :=
  { Direct.withInitialLocals buffered.topLocal with
    labels := LabelTable.reserve {} buffered.labels.size }

/-- Pushes an element into a direct terminal, or fails. -/
def replay (direct : Direct) (element : Element) : Except Fault Direct :=
  match direct.push element with
  | (.error fault, _) => .error fault
  | (.ok (), direct) => .ok direct

/-- Encodes all elements. -/
def finish (buffered : Buffered) : Except Fault MethodBody := do
  match buffered.unbound? with
  | some label => .error (.unboundLabel label)
  | none =>
      let direct ← buffered.elements.foldlM replay buffered.resume
      direct.finish

end Buffered

end JvmMethod
