import JvmMethod.Element

/-!
# How elements are written

An element is one line of text: a mnemonic and its operands, separated by
spaces.  Typed instructions have the letter of their kind in front, constants
have a mnemonic of their own where the machine has one, and a label is placed
by its name and a colon.

The writer is given what labels are called.  `Element.text` calls them `l0`,
`l1`, …
-/

namespace JvmMethod

/-- How a constant is written. -/
def Constant.text : Constant → String
  | .null => "aconst_null"
  | .int value =>
      if value = -1 then "iconst_m1"
      else if 0 ≤ value ∧ value ≤ 5 then "iconst_" ++ toString value.toInt
      else if -128 ≤ value ∧ value ≤ 127 then "bipush " ++ toString value.toInt
      else "sipush " ++ toString value.toInt
  | .long0 => "lconst_0"
  | .long1 => "lconst_1"
  | .float0 => "fconst_0"
  | .float1 => "fconst_1"
  | .float2 => "fconst_2"
  | .double0 => "dconst_0"
  | .double1 => "dconst_1"

/-- Puts a space before every word and joins them. -/
def spaced (words : List String) : String :=
  words.foldl (fun text word => text ++ " " ++ word) ""

variable {ℓ : Type}

/-- How a branch is written. -/
def Branch.text (name : ℓ → String) : Branch ℓ → String
  | .test condition target => condition.mnemonic ++ " " ++ name target
  | .goto target => "goto " ++ name target
  | .tableSwitch default low targets =>
      "tableswitch" ++
        spaced (toString low.toInt :: name default :: targets.map name)
  | .lookupSwitch default targets =>
      "lookupswitch" ++
        spaced (name default :: targets.map fun (key, target) =>
          toString key.toInt ++ ":" ++ name target)

/-- How a slot is written. -/
def slotText (slot : Slot) : String :=
  toString slot.toNat

/-- How an element is written. -/
def ElementOf.text (name : ℓ → String) : ElementOf ℓ → String
  | .load kind slot => kind.mnemonic "load" ++ " " ++ slotText slot
  | .store kind slot => kind.mnemonic "store" ++ " " ++ slotText slot
  | .increment slot amount =>
      "iinc " ++ slotText slot ++ " " ++ toString amount.toInt
  | .constant value => value.text
  | .operator instruction => instruction.mnemonic
  | .branch instruction => instruction.text name
  | .methodReturn kind => kind.mnemonic "return"
  | .athrow => "athrow"
  | .label placed => name placed ++ ":"
  | .line number => "line " ++ toString number.toNat
  | .handler entry =>
      "catch" ++
        spaced [name entry.tryStart, name entry.tryStop, name entry.handler,
          match entry.class? with
          | some name => name.text
          | none => "any"]
  | .localVariable entry =>
      "local" ++
        spaced [slotText entry.slot, entry.name.text, entry.type.render,
          name entry.start, name entry.stop]
  | .localVariableType entry =>
      "localtype" ++
        spaced [slotText entry.slot, entry.name.text, entry.signature,
          name entry.start, name entry.stop]

/-- How an element of a method body is written. -/
def Element.text (element : Element) : String :=
  ElementOf.text Label.text element

end JvmMethod
