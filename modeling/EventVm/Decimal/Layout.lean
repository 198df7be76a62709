import EventVm.Decimal.Shortest

/-!
# Floating-point text

Values are shown positionally whatever their size, without a point when they are whole; a tie
between two shortest decimals goes up. JSON numbers are positional from `1e-5` up to below `1e16`,
with `.0` after whole numbers, and scientific outside; a tie goes to the even digit.
-/

namespace EventVm.Decimal

/-- The decimal digits of a number. -/
def digitText (n : Nat) : List Char :=
  Nat.toDigits 10 n

/-- A decimal in positional notation: the digits in front of the point and those after it. -/
def positionalParts (d : Decimal) : List Char × List Char :=
  let ds := digitText d.digits
  if 0 ≤ d.exponent then (ds ++ List.replicate d.exponent.toNat '0', [])
  else
    let places := d.exponent.natAbs
    let padded := List.replicate (places + 1 - ds.length) '0' ++ ds
    (padded.take (padded.length - places), padded.drop (padded.length - places))

/-- A decimal in positional notation; `whole` stands after whole numbers. -/
def positional (whole : List Char) (d : Decimal) : List Char :=
  match positionalParts d with
  | (front, []) => front ++ whole
  | (front, places) => front ++ '.' :: places

/-- The exponent in scientific notation. -/
def magnitude (d : Decimal) : Int :=
  d.exponent + (length d.digits : Int) - 1

/-- A decimal in scientific notation, the exponent with its sign. -/
def scientific (d : Decimal) : List Char :=
  let front := match digitText d.digits with
    | [] => []
    | [c] => [c]
    | c :: cs => c :: '.' :: cs
  let e := d.magnitude
  front ++ 'e' :: (if e < 0 then '-' else '+') :: digitText e.natAbs

/-- The sign of a negative number. -/
def signText (negative : Bool) : List Char :=
  if negative then ['-'] else []

/-- A floating-point value as shown to people. -/
def display (f : FloatFormat) (bits : Nat) : String :=
  match f.decode bits with
  | .nan => "NaN"
  | .infinite negative => String.ofList (signText negative ++ "inf".toList)
  | .finite negative significand exponent =>
    String.ofList (signText negative ++ positional [] (shortest f .up significand exponent))

/-- A floating-point value as a JSON number, if it is finite. -/
def jsonNumber? (f : FloatFormat) (bits : Nat) : Option String :=
  match f.decode bits with
  | .nan | .infinite _ => none
  | .finite negative significand exponent =>
    let d := shortest f .even significand exponent
    let text :=
      if -5 ≤ d.magnitude ∧ d.magnitude ≤ 15 then positional ['.', '0'] d else scientific d
    some (String.ofList (signText negative ++ text))

end EventVm.Decimal
