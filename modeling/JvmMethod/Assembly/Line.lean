import JvmMethod.Element
import JvmMethod.Text.Blank
import JvmMethod.Text.Numeral

/-!
# Reading a line of assembly

A line holds at most one element, in the form in which elements are written,
and a few forms more: `iload_1` for `iload 1`, any constant from 0 to 5 as
`iconst_n`, any 16-bit constant as `bipush` or `sipush`.  A `#` and what follows
it is a comment.

Labels are names here, and any word is a name.  The reader notes every name at
the moment when it meets it, so that it is known which names a line mentions in
front of the place where it turns out to be wrong.
-/

namespace JvmMethod

/-- Why a line is no element. -/
inductive LineFault where
  | missingOperand (what : String)
  | invalidOperand (what word : String)
  | missingLabel
  | missingTarget
  | expectedPair (word : String)
  | invalidKey (word : String)
  | missingCatchType
  | missingName
  | missingDescriptor
  | missingSignature
  | name (fault : NameFault)
  | descriptor (fault : DescriptorFault)
  | unknownInstruction (mnemonic : String)
  | unknownComparison (suffix : String)
  | extraOperand (word : String)
  deriving DecidableEq

/-- The wording of a line fault. -/
def LineFault.message : LineFault → String
  | .missingOperand what => "missing " ++ what ++ " operand"
  | .invalidOperand what word =>
      "invalid " ++ what ++ " operand '" ++ word ++ "'"
  | .missingLabel => "missing label operand"
  | .missingTarget => "tableswitch needs at least one target"
  | .expectedPair word => "expected 'key:label', got '" ++ word ++ "'"
  | .invalidKey word => "invalid switch key '" ++ word ++ "'"
  | .missingCatchType => "missing catch type"
  | .missingName => "missing local variable name"
  | .missingDescriptor => "missing descriptor"
  | .missingSignature => "missing signature"
  | .name fault => fault.message
  | .descriptor fault => fault.toFault.message
  | .unknownInstruction mnemonic => "unknown instruction '" ++ mnemonic ++ "'"
  | .unknownComparison suffix => "unknown comparison '" ++ suffix ++ "'"
  | .extraOperand word => "unexpected operand '" ++ word ++ "'"

/-- How far a line has been read. -/
structure LineState where
  /-- The words that were not read yet. -/
  words : List String
  /-- The label names that were met, the last one first. -/
  mentioned : List String := []

/-- Reads a part of a line, or fails. -/
abbrev LineReader (α : Type) := ExceptT LineFault (StateM LineState) α

namespace LineReader

/-- The next word, or a fault if there is none. -/
def word (missing : LineFault) : LineReader String := do
  let state ← get
  match state.words with
  | [] => throw missing
  | word :: words =>
      set { state with words }
      return word

/-- All words that are left. -/
def remaining : LineReader (List String) := do
  let state ← get
  set { state with words := [] }
  return state.words

/-- Notes that a label name was met. -/
def mention (name : String) : LineReader String := do
  modify fun state => { state with mentioned := name :: state.mentioned }
  return name

/-- An operand that names a label. -/
def label : LineReader String := do
  mention (← word .missingLabel)

/-- An operand of another kind. -/
def operand {α : Type} (what : String) (read? : List Char → Option α) :
    LineReader α := do
  let word ← word (.missingOperand what)
  match read? word.toList with
  | some value => return value
  | none => throw (.invalidOperand what word)

/-- An operand that is a local slot. -/
def slot : LineReader Slot :=
  operand "slot" uint16?

/-- An operand that names a local variable. -/
def localName : LineReader UnqualifiedName := do
  match UnqualifiedName.ofString (← word .missingName) with
  | .ok name => return name
  | .error fault => throw (.name fault)

/-- An operand that is a field descriptor. -/
def fieldType : LineReader FieldType := do
  match FieldType.ofString (← word .missingDescriptor) with
  | .ok type => return type
  | .error fault => throw (.descriptor fault)

/-- An operand that is the class of an exception, or `any`. -/
def catchType : LineReader (Option BinaryName) := do
  let word ← word .missingCatchType
  if word = "any" then return none
  else
    match BinaryName.ofString word with
    | .ok name => return some name
    | .error fault => throw (.name fault)

/-- Words that name a label each. -/
def labels : List String → LineReader (List String)
  | [] => return []
  | word :: words => do
      let name ← mention word
      return name :: (← labels words)

/-- Words that are a key, a colon and the name of a label each. -/
def pairs : List String → LineReader (List (Int32 × String))
  | [] => return []
  | word :: words => do
      let key := word.toList.takeWhile (· != ':')
      match word.toList.dropWhile (· != ':') with
      | [] => throw (.expectedPair word)
      | _ :: name =>
          match int32? key with
          | none => throw (.invalidKey (String.ofList key))
          | some key =>
              let name ← mention (String.ofList name)
              return (key, name) :: (← pairs words)

/-- A table switch, behind its mnemonic. -/
def tableSwitch : LineReader (Branch String) := do
  let low ← operand "low" int32?
  let default ← label
  let targets ← labels (← remaining)
  if targets = [] then throw .missingTarget
  else return .tableSwitch default low targets

/-- A lookup switch, behind its mnemonic. -/
def lookupSwitch : LineReader (Branch String) := do
  let default ← label
  return .lookupSwitch default (← pairs (← remaining))

/-- An exception handler, behind its mnemonic. -/
def handler : LineReader (ExceptionHandler String) := do
  let tryStart ← label
  let tryStop ← label
  let handler ← label
  return { tryStart, tryStop, handler, class? := ← catchType }

/-- A local variable, behind its mnemonic. -/
def localVariable : LineReader (LocalVariable String) := do
  let slot ← slot
  let name ← localName
  let type ← fieldType
  let start ← label
  return { slot, name, type, start, stop := ← label }

/-- A local variable with a generic signature, behind its mnemonic. -/
def localVariableType : LineReader (LocalVariableType String) := do
  let slot ← slot
  let name ← localName
  let signature ← word .missingSignature
  let start ← label
  return { slot, name, signature, start, stop := ← label }

/-- A slot that is part of a mnemonic. -/
def shortSlot? (text : List Char) : Option Slot :=
  (uint16? text).filter (· ≤ 3)

/-- A typed instruction, by its kind and the mnemonic behind the letter of the
kind. -/
def typed (mnemonic : String) (kind : Kind) (family : List Char) :
    LineReader (ElementOf String) := do
  if family = "return".toList then return .methodReturn kind
  else if family = "load".toList then return .load kind (← slot)
  else if family = "store".toList then return .store kind (← slot)
  else
    match ("load_".toList.isPrefixOf? family).bind shortSlot?,
        ("store_".toList.isPrefixOf? family).bind shortSlot? with
    | some slot, _ => return .load kind slot
    | none, some slot => return .store kind slot
    | none, none => throw (.unknownInstruction mnemonic)

/-- An instruction whose mnemonic follows a pattern: a number, a comparison or
a kind is part of it. -/
def patterned (mnemonic : String) : LineReader (ElementOf String) := do
  let chars := mnemonic.toList
  match "iconst_".toList.isPrefixOf? chars with
  | some number =>
      match (int16? number).filter fun value => 0 ≤ value && value ≤ 5 with
      | some value => return .constant (.int value)
      | none => throw (.unknownInstruction mnemonic)
  | none =>
  match "if_icmp".toList.isPrefixOf? chars with
  | some suffix =>
      match OrdComparison.ofSuffix? (String.ofList suffix) with
      | some comparison => return .branch (.test (.ints comparison) (← label))
      | none => throw (.unknownComparison (String.ofList suffix))
  | none =>
  match ("if".toList.isPrefixOf? chars).bind fun suffix =>
      OrdComparison.ofSuffix? (String.ofList suffix) with
  | some comparison => return .branch (.test (.zero comparison) (← label))
  | none =>
  match chars with
  | [] => throw (.unknownInstruction mnemonic)
  | letter :: family =>
      match Kind.ofLetter? letter with
      | some kind => typed mnemonic kind family
      | none => throw (.unknownInstruction mnemonic)

/-- An element, behind its mnemonic. -/
def element (mnemonic : String) : LineReader (ElementOf String) := do
  match mnemonic with
  | "iinc" =>
      let slot ← slot
      return .increment slot (← operand "increment" int16?)
  | "aconst_null" => return .constant .null
  | "iconst_m1" => return .constant (.int (-1))
  | "bipush" | "sipush" =>
      return .constant (.int (← operand "value" int16?))
  | "lconst_0" => return .constant .long0
  | "lconst_1" => return .constant .long1
  | "fconst_0" => return .constant .float0
  | "fconst_1" => return .constant .float1
  | "fconst_2" => return .constant .float2
  | "dconst_0" => return .constant .double0
  | "dconst_1" => return .constant .double1
  | "goto" => return .branch (.goto (← label))
  | "if_acmpeq" => return .branch (.test (.refs .eq) (← label))
  | "if_acmpne" => return .branch (.test (.refs .ne) (← label))
  | "ifnull" => return .branch (.test (.null .eq) (← label))
  | "ifnonnull" => return .branch (.test (.null .ne) (← label))
  | "tableswitch" => return .branch (← tableSwitch)
  | "lookupswitch" => return .branch (← lookupSwitch)
  | "return" => return .methodReturn .void
  | "athrow" => return .athrow
  | "line" => return .line (← operand "line number" uint16?)
  | "catch" => return .handler (← handler)
  | "local" => return .localVariable (← localVariable)
  | "localtype" => return .localVariableType (← localVariableType)
  | _ =>
      match Operator.ofMnemonic? mnemonic with
      | some instruction => return .operator instruction
      | none => patterned mnemonic

/-- The name in front of the colon at the end of a word, if there is one. -/
def placedName? (word : String) : Option String :=
  match word.toList.reverse with
  | ':' :: name => some (String.ofList name.reverse)
  | _ => none

/-- The element of a whole line. -/
def line : LineReader (Option (ElementOf String)) := do
  let state ← get
  match state.words with
  | [] => return none
  | mnemonic :: words =>
      set { state with words }
      let element ←
        match placedName? mnemonic with
        | some name => pure (.label (← mention name))
        | none => element mnemonic
      match ← remaining with
      | [] => return some element
      | word :: _ => throw (.extraOperand word)

end LineReader

/-- A line without its comment. -/
def withoutComment (line : List Char) : List Char :=
  line.takeWhile (· != '#')

/-- Reads a line: its element, if it has one, and the label names that it
mentions, in order and up to the fault if there is one. -/
def readLine (line : List Char) :
    Except LineFault (Option (ElementOf String)) × List String :=
  match LineReader.line.run { words := wordsOf (withoutComment line) } with
  | (result, state) => (result, state.mentioned.reverse)

end JvmMethod
