import EventVm.Bytes.LittleEndian

/-!
# Hexadecimal text

Addresses in messages take as many lower-case digits as they need; operands in listings take eight
upper-case digits; byte strings take two lower-case digits a byte.
-/

namespace EventVm.Text

/-- The lower-case digit of a number below 16. -/
def hexDigit (n : Nat) : Char :=
  "0123456789abcdef".toList.getD (n % 16) '0'

/-- The upper-case digit of a number below 16. -/
def hexDigitUpper (n : Nat) : Char :=
  "0123456789ABCDEF".toList.getD (n % 16) '0'

/-- The `width` lowest upper-case hexadecimal digits of a number. -/
def fixedHex : (width n : Nat) → List Char
  | 0, _ => []
  | width + 1, n => fixedHex width (n / 16) ++ [hexDigitUpper n]

/-- An address as written in listings. -/
def operandHex (word : UInt32) : String :=
  String.ofList ('0' :: 'x' :: fixedHex 8 word.toNat)

/-- A number in as few lower-case hexadecimal digits as possible. -/
def hex (n : Nat) : String :=
  String.ofList (Nat.toDigits 16 n)

/-- An address as written in messages. -/
def addressHex (word : UInt32) : String :=
  "0x" ++ hex word.toNat

/-- A byte string, two digits a byte. -/
def bytesHex (bytes : Bytes) : String :=
  String.ofList (bytes.flatMap fun b => [hexDigit (b.toNat / 16), hexDigit b.toNat])

end EventVm.Text
