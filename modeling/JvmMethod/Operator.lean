/-!
# Operators

The instructions without operands that only work on the operand stack and the
heap: each is a single byte, its opcode, and has a mnemonic of its own.
-/

namespace JvmMethod

/-- An instruction that is nothing but its opcode. -/
inductive Operator where
  | nop | iaload | laload | faload | daload | aaload | baload | caload
  | saload | iastore | lastore | fastore | dastore | aastore | bastore
  | castore | sastore | pop | pop2 | dup | dup_x1 | dup_x2 | dup2 | dup2_x1
  | dup2_x2 | swap | iadd | ladd | fadd | dadd | isub | lsub | fsub | dsub
  | imul | lmul | fmul | dmul | idiv | ldiv | fdiv | ddiv | irem | lrem
  | frem | drem | ineg | lneg | fneg | dneg | ishl | lshl | ishr | lshr
  | iushr | lushr | iand | land | ior | lor | ixor | lxor | i2l | i2f | i2d
  | l2i | l2f | l2d | f2i | f2l | f2d | d2i | d2l | d2f | i2b | i2c | i2s
  | lcmp | fcmpl | fcmpg | dcmpl | dcmpg | arraylength | monitorenter
  | monitorexit
  deriving DecidableEq

namespace Operator

/-- All operators, by opcode. -/
def all : List Operator :=
  [.nop, .iaload, .laload, .faload, .daload, .aaload, .baload, .caload,
   .saload, .iastore, .lastore, .fastore, .dastore, .aastore, .bastore,
   .castore, .sastore, .pop, .pop2, .dup, .dup_x1, .dup_x2, .dup2, .dup2_x1,
   .dup2_x2, .swap, .iadd, .ladd, .fadd, .dadd, .isub, .lsub, .fsub, .dsub,
   .imul, .lmul, .fmul, .dmul, .idiv, .ldiv, .fdiv, .ddiv, .irem, .lrem,
   .frem, .drem, .ineg, .lneg, .fneg, .dneg, .ishl, .lshl, .ishr, .lshr,
   .iushr, .lushr, .iand, .land, .ior, .lor, .ixor, .lxor, .i2l, .i2f, .i2d,
   .l2i, .l2f, .l2d, .f2i, .f2l, .f2d, .d2i, .d2l, .d2f, .i2b, .i2c, .i2s,
   .lcmp, .fcmpl, .fcmpg, .dcmpl, .dcmpg, .arraylength, .monitorenter,
   .monitorexit]

/-- The mnemonic of an operator. -/
def mnemonic : Operator → String
  | .nop => "nop"
  | .iaload => "iaload"
  | .laload => "laload"
  | .faload => "faload"
  | .daload => "daload"
  | .aaload => "aaload"
  | .baload => "baload"
  | .caload => "caload"
  | .saload => "saload"
  | .iastore => "iastore"
  | .lastore => "lastore"
  | .fastore => "fastore"
  | .dastore => "dastore"
  | .aastore => "aastore"
  | .bastore => "bastore"
  | .castore => "castore"
  | .sastore => "sastore"
  | .pop => "pop"
  | .pop2 => "pop2"
  | .dup => "dup"
  | .dup_x1 => "dup_x1"
  | .dup_x2 => "dup_x2"
  | .dup2 => "dup2"
  | .dup2_x1 => "dup2_x1"
  | .dup2_x2 => "dup2_x2"
  | .swap => "swap"
  | .iadd => "iadd"
  | .ladd => "ladd"
  | .fadd => "fadd"
  | .dadd => "dadd"
  | .isub => "isub"
  | .lsub => "lsub"
  | .fsub => "fsub"
  | .dsub => "dsub"
  | .imul => "imul"
  | .lmul => "lmul"
  | .fmul => "fmul"
  | .dmul => "dmul"
  | .idiv => "idiv"
  | .ldiv => "ldiv"
  | .fdiv => "fdiv"
  | .ddiv => "ddiv"
  | .irem => "irem"
  | .lrem => "lrem"
  | .frem => "frem"
  | .drem => "drem"
  | .ineg => "ineg"
  | .lneg => "lneg"
  | .fneg => "fneg"
  | .dneg => "dneg"
  | .ishl => "ishl"
  | .lshl => "lshl"
  | .ishr => "ishr"
  | .lshr => "lshr"
  | .iushr => "iushr"
  | .lushr => "lushr"
  | .iand => "iand"
  | .land => "land"
  | .ior => "ior"
  | .lor => "lor"
  | .ixor => "ixor"
  | .lxor => "lxor"
  | .i2l => "i2l"
  | .i2f => "i2f"
  | .i2d => "i2d"
  | .l2i => "l2i"
  | .l2f => "l2f"
  | .l2d => "l2d"
  | .f2i => "f2i"
  | .f2l => "f2l"
  | .f2d => "f2d"
  | .d2i => "d2i"
  | .d2l => "d2l"
  | .d2f => "d2f"
  | .i2b => "i2b"
  | .i2c => "i2c"
  | .i2s => "i2s"
  | .lcmp => "lcmp"
  | .fcmpl => "fcmpl"
  | .fcmpg => "fcmpg"
  | .dcmpl => "dcmpl"
  | .dcmpg => "dcmpg"
  | .arraylength => "arraylength"
  | .monitorenter => "monitorenter"
  | .monitorexit => "monitorexit"

/-- The opcode of an operator. -/
def opcode : Operator → UInt8
  | .nop => 0x00
  | .iaload => 0x2e
  | .laload => 0x2f
  | .faload => 0x30
  | .daload => 0x31
  | .aaload => 0x32
  | .baload => 0x33
  | .caload => 0x34
  | .saload => 0x35
  | .iastore => 0x4f
  | .lastore => 0x50
  | .fastore => 0x51
  | .dastore => 0x52
  | .aastore => 0x53
  | .bastore => 0x54
  | .castore => 0x55
  | .sastore => 0x56
  | .pop => 0x57
  | .pop2 => 0x58
  | .dup => 0x59
  | .dup_x1 => 0x5a
  | .dup_x2 => 0x5b
  | .dup2 => 0x5c
  | .dup2_x1 => 0x5d
  | .dup2_x2 => 0x5e
  | .swap => 0x5f
  | .iadd => 0x60
  | .ladd => 0x61
  | .fadd => 0x62
  | .dadd => 0x63
  | .isub => 0x64
  | .lsub => 0x65
  | .fsub => 0x66
  | .dsub => 0x67
  | .imul => 0x68
  | .lmul => 0x69
  | .fmul => 0x6a
  | .dmul => 0x6b
  | .idiv => 0x6c
  | .ldiv => 0x6d
  | .fdiv => 0x6e
  | .ddiv => 0x6f
  | .irem => 0x70
  | .lrem => 0x71
  | .frem => 0x72
  | .drem => 0x73
  | .ineg => 0x74
  | .lneg => 0x75
  | .fneg => 0x76
  | .dneg => 0x77
  | .ishl => 0x78
  | .lshl => 0x79
  | .ishr => 0x7a
  | .lshr => 0x7b
  | .iushr => 0x7c
  | .lushr => 0x7d
  | .iand => 0x7e
  | .land => 0x7f
  | .ior => 0x80
  | .lor => 0x81
  | .ixor => 0x82
  | .lxor => 0x83
  | .i2l => 0x85
  | .i2f => 0x86
  | .i2d => 0x87
  | .l2i => 0x88
  | .l2f => 0x89
  | .l2d => 0x8a
  | .f2i => 0x8b
  | .f2l => 0x8c
  | .f2d => 0x8d
  | .d2i => 0x8e
  | .d2l => 0x8f
  | .d2f => 0x90
  | .i2b => 0x91
  | .i2c => 0x92
  | .i2s => 0x93
  | .lcmp => 0x94
  | .fcmpl => 0x95
  | .fcmpg => 0x96
  | .dcmpl => 0x97
  | .dcmpg => 0x98
  | .arraylength => 0xbe
  | .monitorenter => 0xc2
  | .monitorexit => 0xc3

/-- The operator with a given mnemonic. -/
def ofMnemonic? (mnemonic : String) : Option Operator :=
  all.find? fun operator => operator.mnemonic == mnemonic

theorem ofMnemonic?_mnemonic (operator : Operator) :
    ofMnemonic? operator.mnemonic = some operator := by
  cases operator <;> rfl

end Operator

end JvmMethod
