/-!
# Words as bytes

Numbers of two and four bytes are written with the most significant byte first.
Offsets are signed; a signed number is written as the unsigned one with the same
bits.
-/

namespace JvmMethod

/-- The two bytes of a word. -/
def bytes16 (word : UInt16) : List UInt8 :=
  [UInt8.ofNat (word.toNat / 256), UInt8.ofNat word.toNat]

/-- The four bytes of a word. -/
def bytes32 (word : UInt32) : List UInt8 :=
  [UInt8.ofNat (word.toNat / 16777216), UInt8.ofNat (word.toNat / 65536),
    UInt8.ofNat (word.toNat / 256), UInt8.ofNat word.toNat]

/-- The two bytes of a signed number, of which the lowest sixteen bits count. -/
def offsetBytes16 (offset : Int) : List UInt8 :=
  bytes16 (Int16.ofInt offset).toUInt16

/-- The four bytes of a signed number, of which the lowest thirty-two bits
count. -/
def offsetBytes32 (offset : Int) : List UInt8 :=
  bytes32 (Int32.ofInt offset).toUInt32

/-- Can the number be written in two signed bytes? -/
def fitsInt16 (offset : Int) : Bool :=
  -32768 ≤ offset && offset ≤ 32767

end JvmMethod
