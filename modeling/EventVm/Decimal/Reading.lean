import EventVm.Decimal.Layout

/-!
# Reading floating-point text

A numeral is an optional sign and one of: `inf` or `infinity`, `nan`, each in any case; or digits
with at most one point among them and an optional exponent. At least one digit stands in front of
the exponent and one inside it. The value is the nearest number of the format.
-/

namespace EventVm.Decimal

/-- What a numeral without its sign writes. -/
inductive Magnitude where
  | nan
  | infinite
  | finite (value : Decimal)
  deriving DecidableEq, Repr

/-- Whether a character is an ASCII digit. -/
def isDigit (c : Char) : Bool :=
  '0' ≤ c && c ≤ '9'

/-- The number written by a string of digits. -/
def ofDigits (ds : List Char) : Nat :=
  ds.foldl (fun n c => n * 10 + (c.toNat - '0'.toNat)) 0

/-- Splits off the sign: whether it is a minus, and the rest. -/
def readSign : List Char → Bool × List Char
  | '-' :: cs => (true, cs)
  | '+' :: cs => (false, cs)
  | cs => (false, cs)

/-- The exponent at the end of a numeral. -/
def exponent? : List Char → Option Int
  | [] => some 0
  | c :: cs =>
    let (negative, ds) := readSign cs
    if (c = 'e' ∨ c = 'E') ∧ ds ≠ [] ∧ ds.all isDigit then
      some (if negative then -(ofDigits ds : Int) else ofDigits ds)
    else none

/-- The number written by digits, point and exponent. -/
def finite? (cs : List Char) : Option Decimal :=
  let whole := cs.takeWhile isDigit
  let (places, rest) := match cs.dropWhile isDigit with
    | '.' :: cs => (cs.takeWhile isDigit, cs.dropWhile isDigit)
    | cs => ([], cs)
  if whole.isEmpty && places.isEmpty then none
  else (exponent? rest).map fun e =>
    ⟨ofDigits (whole ++ places), e - (places.length : Int)⟩

/-- What a numeral without its sign writes. -/
def magnitude? (cs : List Char) : Option Magnitude :=
  let lower := String.ofList (cs.map Char.toLower)
  if lower = "inf" ∨ lower = "infinity" then some .infinite
  else if lower = "nan" then some .nan
  else (finite? cs).map .finite

/-- The magnitude bits of the number nearest to a decimal. Decimals beyond every format's range are
settled by their size alone. -/
def roundTo (f : FloatFormat) (d : Decimal) : Nat :=
  if d.digits = 0 then 0
  else if 400 < d.magnitude then f.infinityBits
  else if d.magnitude < -400 then 0
  else if d.exponent < 0 then f.encodeRounded d.digits (Nat.pow 10 d.exponent.natAbs)
  else f.encodeRounded (d.digits * Nat.pow 10 d.exponent.natAbs) 1

/-- The bits of the number that a numeral writes. -/
def read? (f : FloatFormat) (cs : List Char) : Option Nat :=
  let (negative, cs) := readSign cs
  (magnitude? cs).map fun m => f.withSign negative <| match m with
    | .nan => f.nanBits
    | .infinite => f.infinityBits
    | .finite d => roundTo f d

end EventVm.Decimal
