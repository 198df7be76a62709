/-!
# Reading integers

An integer is an optional sign and one or more digits of its base, nothing else. Literals carry the
base in front: `0x` or `0X` for hexadecimal, nothing for decimal.
-/

namespace EventVm.Text

/-- The value of a digit in some base up to 16. -/
def digit? (base : Nat) (c : Char) : Option Nat :=
  let value :=
    if '0' ≤ c ∧ c ≤ '9' then c.toNat - '0'.toNat
    else if 'a' ≤ c ∧ c ≤ 'f' then c.toNat - 'a'.toNat + 10
    else if 'A' ≤ c ∧ c ≤ 'F' then c.toNat - 'A'.toNat + 10
    else base
  if value < base then some value else none

/-- Appends the digits of a text to a number. -/
def appendDigits (base : Nat) : (n : Nat) → List Char → Option Nat
  | n, [] => some n
  | n, c :: cs => do
    let d ← digit? base c
    appendDigits base (n * base + d) cs

/-- The number written by one or more digits. -/
def natural? (base : Nat) : List Char → Option Nat
  | [] => none
  | cs => appendDigits base 0 cs

/-- The integer written by an optional sign and one or more digits. -/
def signed? (base : Nat) : List Char → Option Int
  | '-' :: cs => (natural? base cs).map fun n => -(n : Int)
  | '+' :: cs => (natural? base cs).map Int.ofNat
  | cs => (natural? base cs).map Int.ofNat

/-- The integer that a literal writes, of 64 bits. -/
def integerLiteral? (cs : List Char) : Option Int :=
  let value := match cs with
    | '0' :: 'x' :: digits => signed? 16 digits
    | '0' :: 'X' :: digits => signed? 16 digits
    | digits => signed? 10 digits
  value.filter fun v => -0x8000000000000000 ≤ v && v < 0x8000000000000000

end EventVm.Text
