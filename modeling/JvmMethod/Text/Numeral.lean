/-!
# Reading numbers

A number is written with decimal digits, at least one, after an optional sign.
An unsigned number may have a plus sign only.  A reader for words of a given
size refuses numbers that do not fit.
-/

namespace JvmMethod

/-- The number that decimal digits stand for. -/
def digits? (text : List Char) : Option Nat :=
  if text ≠ [] ∧ text.all Char.isDigit then
    some (Nat.ofDigitChars 10 text 0)
  else none

/-- The number that digits with an optional plus sign stand for. -/
def unsigned? : List Char → Option Nat
  | '+' :: text => digits? text
  | text => digits? text

/-- The number that digits with an optional sign stand for. -/
def signed? : List Char → Option Int
  | '+' :: text => (digits? text).map Int.ofNat
  | '-' :: text => (digits? text).map fun number => -Int.ofNat number
  | text => (digits? text).map Int.ofNat

/-- Reads an unsigned number of sixteen bits. -/
def uint16? (text : List Char) : Option UInt16 :=
  (unsigned? text).bind fun number =>
    if number ≤ 65535 then some (UInt16.ofNat number) else none

/-- Reads a signed number of sixteen bits. -/
def int16? (text : List Char) : Option Int16 :=
  (signed? text).bind fun number =>
    if -32768 ≤ number ∧ number ≤ 32767 then some (Int16.ofInt number)
    else none

/-- Reads a signed number of thirty-two bits. -/
def int32? (text : List Char) : Option Int32 :=
  (signed? text).bind fun number =>
    if -2147483648 ≤ number ∧ number ≤ 2147483647 then
      some (Int32.ofInt number)
    else none

end JvmMethod
