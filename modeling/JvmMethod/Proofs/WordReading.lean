import JvmMethod.Bytes

/-!
# Reading words back

The readers take a word of two or four bytes, most significant byte first, from
the front of a list and give what is left.  Reading what was written gives the
word back, and an offset comes back as the number that it was, provided that it
fits: this is where a number that was cut to its lowest bits would show.
-/

namespace JvmMethod

/-- The word that two bytes spell. -/
def word16 (high low : UInt8) : UInt16 :=
  UInt16.ofNat (256 * high.toNat + low.toNat)

/-- The word that four bytes spell, the most significant first. -/
def word32 (first second third fourth : UInt8) : UInt32 :=
  UInt32.ofNat (16777216 * first.toNat + 65536 * second.toNat +
    256 * third.toNat + fourth.toNat)

/-- Reads a word of two bytes. -/
def readUInt16? : List UInt8 → Option (UInt16 × List UInt8)
  | high :: low :: rest => some (word16 high low, rest)
  | _ => none

/-- Reads a signed word of two bytes. -/
def readInt16? (bytes : List UInt8) : Option (Int16 × List UInt8) :=
  (readUInt16? bytes).map fun (word, rest) => (word.toInt16, rest)

/-- Reads a signed word of four bytes. -/
def readInt32? : List UInt8 → Option (Int32 × List UInt8)
  | first :: second :: third :: fourth :: rest =>
      some ((word32 first second third fourth).toInt32, rest)
  | _ => none

/-- The signed number in the two bytes at a position of the code. -/
def int16At? (code : Array UInt8) (position : Nat) : Option Int :=
  (readInt16? (code.toList.drop position)).map fun (word, _) => word.toInt

/-- The signed number in the four bytes at a position of the code. -/
def int32At? (code : Array UInt8) (position : Nat) : Option Int :=
  (readInt32? (code.toList.drop position)).map fun (word, _) => word.toInt

theorem fitsInt16_iff {offset : Int} :
    fitsInt16 offset = true ↔ -32768 ≤ offset ∧ offset ≤ 32767 := by
  simp [fitsInt16]

theorem word16_bytes (word : UInt16) :
    word16 (UInt8.ofNat (word.toNat / 256)) (UInt8.ofNat word.toNat) = word := by
  have hlt := word.toNat_lt
  apply UInt16.toNat_inj.1
  simp only [word16, UInt16.toNat_ofNat', UInt8.toNat_ofNat']
  omega

theorem word32_bytes (word : UInt32) :
    word32 (UInt8.ofNat (word.toNat / 16777216))
      (UInt8.ofNat (word.toNat / 65536)) (UInt8.ofNat (word.toNat / 256))
      (UInt8.ofNat word.toNat) = word := by
  have hlt := word.toNat_lt
  apply UInt32.toNat_inj.1
  simp only [word32, UInt32.toNat_ofNat', UInt8.toNat_ofNat']
  omega

variable (rest : List UInt8)

/-- Reading a word of two bytes undoes writing it. -/
@[simp] theorem readUInt16?_bytes16 (word : UInt16) :
    readUInt16? (bytes16 word ++ rest) = some (word, rest) := by
  simp only [bytes16, List.cons_append, List.nil_append, readUInt16?,
    word16_bytes]

@[simp] theorem readInt16?_bytes16 (word : Int16) :
    readInt16? (bytes16 word.toUInt16 ++ rest) = some (word, rest) := by
  simp [readInt16?]

/-- Reading a word of four bytes undoes writing it. -/
@[simp] theorem readInt32?_bytes32 (word : Int32) :
    readInt32? (bytes32 word.toUInt32 ++ rest) = some (word, rest) := by
  simp only [bytes32, List.cons_append, List.nil_append, readInt32?,
    word32_bytes, Int32.toInt32_toUInt32]

/-- An offset that fits in two bytes is read back as it was. -/
theorem readInt16?_offsetBytes16 {offset : Int} (h : fitsInt16 offset = true) :
    ∃ word, readInt16? (offsetBytes16 offset ++ rest) = some (word, rest) ∧
      word.toInt = offset := by
  have hfits := fitsInt16_iff.1 h
  refine ⟨Int16.ofInt offset, readInt16?_bytes16 rest _, ?_⟩
  exact Int16.toInt_ofInt_of_le (by omega) (by omega)

/-- An offset between two places of a method's code is read back as it was. -/
theorem readInt32?_offsetBytes32 {offset : Int}
    (hlow : -65535 ≤ offset) (hhigh : offset ≤ 65535) :
    ∃ word, readInt32? (offsetBytes32 offset ++ rest) = some (word, rest) ∧
      word.toInt = offset := by
  refine ⟨Int32.ofInt offset, readInt32?_bytes32 rest _, ?_⟩
  exact Int32.toInt_ofInt_of_le (by omega) (by omega)

end JvmMethod
