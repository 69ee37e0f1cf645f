import JvmMethod.Encoding
import JvmMethod.LabelTable
import JvmMethod.MethodBody

/-!
# Encoding while elements arrive

The direct terminal writes the bytes of an instruction as soon as it is pushed,
and never changes them afterwards, except for one thing: the offset of a label
that is not placed yet is written as zeros and noted as a *fixup*, and
`Direct.finish` fills it in.

* A push that fails changes nothing, with one exception: a branch back to a
  label that is too far away has written its opcode by then.
* Handlers and local variables are kept with their labels until the end.
* The method needs as many slots as the highest one that an element is about or
  that was handed out.
-/

namespace JvmMethod

/-- An offset that is to be filled in once its label has a place. -/
structure Fixup where
  label : Label
  /-- Where the instruction is, from which the offset counts. -/
  start : Nat
  /-- Where the offset is written. -/
  operand : Nat
  /-- Four bytes, not two? -/
  isFar : Bool
  deriving DecidableEq

/-- A method body of which the elements up to now are encoded. -/
structure Direct where
  code : Array UInt8 := #[]
  labels : LabelTable := {}
  fixups : Array Fixup := #[]
  /-- The next slot to hand out. -/
  topLocal : Slot
  /-- The end of the highest slot that was handed out or mentioned. -/
  maxLocals : Nat
  handlers : Array (ExceptionHandler Label) := #[]
  lines : Array LineEntry := #[]
  localVariables : Array (LocalVariable Label) := #[]
  localVariableTypes : Array (LocalVariableType Label) := #[]
  deriving DecidableEq

namespace Direct

/-- A body of which nothing is encoded, with its first slots taken. -/
def withInitialLocals (topLocal : Slot) : Direct :=
  { topLocal, maxLocals := topLocal.toNat }

/-- A body of which nothing is encoded, with the slots of the receiver and the
parameters taken. -/
def ofMethod (flags : AccessFlags) (descriptor : MethodDescriptor) :
    Except Fault Direct :=
  (parameterSlots flags descriptor).map withInitialLocals

/-- Notes the slots that an element is about. -/
def noteLocals (direct : Direct) (element : Element) : Direct :=
  match element.localSlot? with
  | some (slot, kind) =>
      { direct with
        maxLocals := max direct.maxLocals (slot.toNat + kind.width) }
  | none => direct

/-- Appends bytes to the code. -/
def writeBytes (direct : Direct) (bytes : List UInt8) : Direct :=
  { direct with code := bytes.foldl Array.push direct.code }

/-- Writes zeros for an offset, to be filled in later. -/
def writeFixup (direct : Direct) (start : Nat) (label : Label) (isFar : Bool) :
    Direct :=
  let operand := direct.code.size
  { direct with
    code := direct.code ++ Array.replicate (if isFar then 4 else 2) 0
    fixups := direct.fixups.push { label, start, operand, isFar } }

/-- Writes a piece of the instruction at `start`. -/
def writePiece (direct : Direct) (start : Nat) :
    Piece → Except Fault Unit × Direct
  | .byte value => (.ok (), { direct with code := direct.code.push value })
  | .near label =>
      match direct.labels.position? label with
      | none => (.ok (), direct.writeFixup start label false)
      | some target =>
          let offset : Int := target - start
          if fitsInt16 offset then
            (.ok (), direct.writeBytes (offsetBytes16 offset))
          else (.error (.branchOffsetOverflow label offset), direct)
  | .far label =>
      match direct.labels.position? label with
      | none => (.ok (), direct.writeFixup start label true)
      | some target =>
          (.ok (), direct.writeBytes (offsetBytes32 (target - start)))

/-- Writes the pieces of the instruction at `start`, up to the first that
fails. -/
def writePieces (direct : Direct) (start : Nat) :
    List Piece → Except Fault Unit × Direct
  | [] => (.ok (), direct)
  | piece :: pieces =>
      match direct.writePiece start piece with
      | (.error fault, direct) => (.error fault, direct)
      | (.ok (), direct) => direct.writePieces start pieces

/-- Is the element about a local variable of the void kind? -/
def touchesVoid (element : Element) : Bool :=
  match element.localSlot? with
  | some (_, .void) => true
  | _ => false

/-- Takes in the next element. -/
def push (direct : Direct) (element : Element) : Except Fault Unit × Direct :=
  if touchesVoid element then (.error .voidLocal, direct)
  else
    let direct := direct.noteLocals element
    match element with
    | .label label =>
        if direct.labels.isBound label then
          (.error (.labelAlreadyBound label), direct)
        else
          let position := direct.code.size
          (.ok (), { direct with labels := direct.labels.assign label position })
    | .line line =>
        let start := UInt16.ofNat direct.code.size
        (.ok (), { direct with lines := direct.lines.push { start, line } })
    | .handler entry =>
        (.ok (), { direct with handlers := direct.handlers.push entry })
    | .localVariable entry =>
        (.ok (),
          { direct with localVariables := direct.localVariables.push entry })
    | .localVariableType entry =>
        (.ok (),
          { direct with
            localVariableTypes := direct.localVariableTypes.push entry })
    | instruction =>
        let start := direct.code.size
        match Element.pieces start instruction with
        | .error fault => (.error fault, direct)
        | .ok pieces => direct.writePieces start pieces

/-- Hands out a label. -/
def freshLabel (direct : Direct) : Label × Direct :=
  let (label, labels) := direct.labels.fresh
  (label, { direct with labels })

/-- Hands out a local slot. -/
def allocate (direct : Direct) (kind : Kind) : Except Fault Slot × Direct :=
  match claimSlot direct.topLocal kind with
  | .error fault => (.error fault, direct)
  | .ok topLocal =>
      (.ok direct.topLocal,
        { direct with
          topLocal, maxLocals := max direct.maxLocals topLocal.toNat })

/-- Overwrites bytes of the code, from a position on. -/
def patch (code : Array UInt8) (position : Nat) : List UInt8 → Array UInt8
  | [] => code
  | byte :: bytes =>
      patch (code.setIfInBounds position byte) (position + 1) bytes

/-- Fills in an offset. -/
def applyFixup (labels : LabelTable) (code : Array UInt8) (fixup : Fixup) :
    Except Fault (Array UInt8) :=
  match labels.position? fixup.label with
  | none => .error (.unboundLabel fixup.label)
  | some target =>
      let offset : Int := target - fixup.start
      if fixup.isFar then
        .ok (patch code fixup.operand (offsetBytes32 offset))
      else if fitsInt16 offset then
        .ok (patch code fixup.operand (offsetBytes16 offset))
      else .error (.branchOffsetOverflow fixup.label offset)

/-- The offset of a label that has to be placed. -/
def resolve (labels : LabelTable) (label : Label) : Except Fault CodeOffset :=
  match labels.position? label with
  | none => .error (.unboundLabel label)
  | some position => .ok (UInt16.ofNat position)

/-- The start and the length of the code between two labels. -/
def resolveScope (labels : LabelTable) (start stop : Label) :
    Except Fault (CodeOffset × UInt16) := do
  let startOffset ← resolve labels start
  let stopOffset ← resolve labels stop
  if stopOffset < startOffset then .error (.invalidLocalScope start stop)
  else .ok (startOffset, stopOffset - startOffset)

/-- The entry of an exception handler. -/
def resolveHandler (labels : LabelTable) (entry : ExceptionHandler Label) :
    Except Fault HandlerEntry := do
  let start ← resolve labels entry.tryStart
  let stop ← resolve labels entry.tryStop
  let handler ← resolve labels entry.handler
  return { start, stop, handler, class? := entry.class? }

/-- The entry of a local variable. -/
def resolveVariable (labels : LabelTable) (entry : LocalVariable Label) :
    Except Fault VariableEntry := do
  let (start, length) ← resolveScope labels entry.start entry.stop
  return { start, length, name := entry.name, type := entry.type,
           slot := entry.slot }

/-- The entry of a local variable with a generic signature. -/
def resolveVariableType (labels : LabelTable)
    (entry : LocalVariableType Label) : Except Fault VariableTypeEntry := do
  let (start, length) ← resolveScope labels entry.start entry.stop
  return { start, length, name := entry.name, signature := entry.signature,
           slot := entry.slot }

/-- The number of slots that the method needs. -/
def neededLocals (direct : Direct) : Except Fault UInt16 :=
  let needed := max direct.maxLocals direct.topLocal.toNat
  if needed ≤ 65535 then .ok (UInt16.ofNat needed) else .error .localsOverflow

/-- Fills in all offsets and resolves all labels. -/
def finish (direct : Direct) : Except Fault MethodBody := do
  if 65535 < direct.code.size then
    .error (.methodCodeOverflow direct.code.size)
  else
    let labels := direct.labels
    let code ← direct.fixups.foldlM (applyFixup labels) direct.code
    let handlers ← direct.handlers.mapM (resolveHandler labels)
    let localVariables ← direct.localVariables.mapM (resolveVariable labels)
    let localVariableTypes ←
      direct.localVariableTypes.mapM (resolveVariableType labels)
    let maxLocals ← direct.neededLocals
    let labelOffsets := labels.positions.map (Option.map UInt16.ofNat)
    return { code, maxLocals, labelOffsets, handlers, lines := direct.lines,
             localVariables, localVariableTypes }

end Direct

end JvmMethod
