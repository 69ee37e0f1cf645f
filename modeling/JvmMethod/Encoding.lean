import JvmMethod.Bytes
import JvmMethod.Element

/-!
# The bytes of an instruction

An instruction is encoded into *pieces*: bytes that are known, and holes for the
offset of a label.  An offset counts from the opcode of its instruction; it has
two bytes in a branch and four in a switch.

The pieces depend on the place of the instruction in one way only: the operands
of a switch are aligned to a multiple of four, counted from the start of the
code.  All else is chosen by the size of the operands: the shortest form that
the machine has.
-/

namespace JvmMethod

/-- A part of an encoded instruction. -/
inductive Piece where
  | byte (value : UInt8)
  /-- Two bytes for the offset of a label. -/
  | near (target : Label)
  /-- Four bytes for the offset of a label. -/
  | far (target : Label)
  deriving DecidableEq

/-- Pieces that are known bytes. -/
def knownBytes (values : List UInt8) : List Piece :=
  values.map .byte

/-- The opcode that widens the slot of the instruction behind it. -/
def wideOpcode : UInt8 := 0xc4

/-- A load or store: the slot is part of the opcode up to 3, has a byte up to
255, and two bytes of a widened instruction above. -/
def localPieces (short normal : UInt8) (slot : Slot) : List Piece :=
  if slot ≤ 3 then [.byte (short + slot.toUInt8)]
  else if slot ≤ 255 then [.byte normal, .byte slot.toUInt8]
  else knownBytes (wideOpcode :: normal :: bytes16 slot)

/-- An increment: widened unless the slot and the amount both fit in a byte. -/
def incrementPieces (slot : Slot) (amount : Int16) : List Piece :=
  if slot ≤ 255 ∧ -128 ≤ amount ∧ amount ≤ 127 then
    knownBytes [0x84, slot.toUInt8, amount.toInt8.toUInt8]
  else
    knownBytes
      (wideOpcode :: 0x84 :: bytes16 slot ++ bytes16 amount.toUInt16)

/-- A constant: in the opcode from -1 to 5, with one byte where that is enough,
else with two. -/
def Constant.pieces : Constant → List Piece
  | .null => [.byte 0x01]
  | .int value =>
      if -1 ≤ value ∧ value ≤ 5 then [.byte (value + 3).toInt8.toUInt8]
      else if -128 ≤ value ∧ value ≤ 127 then
        [.byte 0x10, .byte value.toInt8.toUInt8]
      else knownBytes (0x11 :: bytes16 value.toUInt16)
  | .long0 => [.byte 0x09]
  | .long1 => [.byte 0x0a]
  | .float0 => [.byte 0x0b]
  | .float1 => [.byte 0x0c]
  | .float2 => [.byte 0x0d]
  | .double0 => [.byte 0x0e]
  | .double1 => [.byte 0x0f]

/-- The highest key of a table switch: there is at least one target, and the
keys stay in 32 bits. -/
def tableHigh? (low : Int32) (count : Nat) : Option Int32 :=
  if 1 ≤ count ∧ count ≤ 2147483648 ∧ low.toInt + count ≤ 2147483648 then
    some (Int32.ofInt (low.toInt + count - 1))
  else none

/-- The zeros between the opcode of a switch and its operands. -/
def switchPadding (start : Nat) : List Piece :=
  List.replicate (3 - start % 4) (.byte 0)

/-- The four bytes of a number that is known. -/
def wordPieces (value : Int32) : List Piece :=
  knownBytes (bytes32 value.toUInt32)

/-- The targets of a lookup switch in the order of their keys; targets with the
same key stay in the order in which they were given. -/
def sortedTargets (targets : List (Int32 × Label)) : List (Int32 × Label) :=
  targets.mergeSort fun a b => a.1 ≤ b.1

/-- A branch whose opcode is at `start`. -/
def Branch.pieces (start : Nat) : Branch Label → Except Fault (List Piece)
  | .test condition target => .ok [.byte condition.opcode, .near target]
  | .goto target => .ok [.byte 0xa7, .near target]
  | .tableSwitch default low targets =>
      match tableHigh? low targets.length with
      | none => .error (.invalidSwitch low targets.length)
      | some high =>
          .ok (.byte 0xaa :: switchPadding start ++ .far default ::
            wordPieces low ++ wordPieces high ++ targets.map .far)
  | .lookupSwitch default targets =>
      .ok (.byte 0xab :: switchPadding start ++ .far default ::
        wordPieces (Int32.ofNat targets.length) ++
        (sortedTargets targets).flatMap fun (key, target) =>
          wordPieces key ++ [.far target])

/-- An instruction whose opcode is at `start`.  A pseudo-element has no
pieces. -/
def Element.pieces (start : Nat) : Element → Except Fault (List Piece)
  | .load kind slot =>
      match kind.family? with
      | none => .error .voidLocal
      | some family =>
          .ok (localPieces (0x1a + 4 * family) (0x15 + family) slot)
  | .store kind slot =>
      match kind.family? with
      | none => .error .voidLocal
      | some family =>
          .ok (localPieces (0x3b + 4 * family) (0x36 + family) slot)
  | .increment slot amount => .ok (incrementPieces slot amount)
  | .constant value => .ok value.pieces
  | .operator instruction => .ok [.byte instruction.opcode]
  | .branch instruction => instruction.pieces start
  | .methodReturn kind => .ok [.byte (0xac + (kind.family?.getD 5))]
  | .athrow => .ok [.byte 0xbf]
  | .label _ | .line _ | .handler _ | .localVariable _
  | .localVariableType _ => .ok []

end JvmMethod
