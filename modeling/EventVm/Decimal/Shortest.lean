import EventVm.Decimal.BinaryFloat

/-!
# Shortest decimals

A floating-point number is written by the fewest digits that read back as it: among the decimals
that are nearer to it than to its neighbours (the halfway points belong to even significands), those
with the fewest digits, and of them the nearest. On each decimal grid only the two points around the
number matter, so the grids are tried from coarse to fine.
-/

namespace EventVm

/-- The number `digits * 10 ^ exponent`. -/
structure Decimal where
  digits : Nat
  exponent : Int
  deriving DecidableEq, Repr

/-- Which of two equally near decimals is taken. -/
inductive Tie where
  | up
  | even
  deriving DecidableEq, Repr

namespace Decimal

/-- How many decimal digits a number has. -/
def length (n : Nat) : Nat :=
  (Nat.toDigits 10 n).length

/-- The integer part of the decimal logarithm of a positive quotient. -/
def logQuotient (num den : Nat) : Int :=
  if den ≤ num then (length (num / den) : Int) - 1
  else -(length ((den + num - 1) / num - 1) : Int)

/-- Moves zeros at the end of the digits into the exponent, `fuel` of them at most. -/
def stripZeros : (fuel : Nat) → Decimal → Decimal
  | 0, d => d
  | fuel + 1, d =>
    if d.digits ≠ 0 ∧ d.digits % 10 = 0 then stripZeros fuel ⟨d.digits / 10, d.exponent + 1⟩ else d

/-- A number with the interval of the numbers that read back as it, all as multiples of
`scale / unit`. -/
structure Target where
  low : Nat
  value : Nat
  high : Nat
  closed : Bool
  scale : Nat
  unit : Nat

/-- The interval that reads back as `significand * 2 ^ exponent`. The gap below a power of two is
half the gap above it. -/
def Target.of (f : FloatFormat) (significand : Nat) (exponent : Int) : Target :=
  let narrow := significand = f.hiddenBit ∧ f.leastExponent < exponent
  let shift := exponent - 2
  { low := if narrow then 4 * significand - 1 else 4 * significand - 2
    value := 4 * significand
    high := 4 * significand + 2
    closed := significand % 2 = 0
    scale := if shift < 0 then 1 else Nat.pow 2 shift.natAbs
    unit := if shift < 0 then Nat.pow 2 shift.natAbs else 1 }

/-- The target measured in units of `10 ^ exponent`. -/
def Target.onGrid (t : Target) (exponent : Int) : Target :=
  if exponent < 0 then { t with scale := t.scale * Nat.pow 10 exponent.natAbs }
  else { t with unit := t.unit * Nat.pow 10 exponent.natAbs }

/-- Whether an integer lies in the interval. -/
def Target.contains (t : Target) (n : Nat) : Bool :=
  if t.closed then t.low * t.scale ≤ n * t.unit && n * t.unit ≤ t.high * t.scale
  else t.low * t.scale < n * t.unit && n * t.unit < t.high * t.scale

/-- The better of the two integers around the value, if one lies in the interval. -/
def Target.pick? (t : Target) (tie : Tie) : Option Nat :=
  let num := t.value * t.scale
  let n := num / t.unit
  let twice := 2 * (num % t.unit)
  match t.contains n, t.contains (n + 1) with
  | false, false => none
  | true, false => some n
  | false, true => some (n + 1)
  | true, true =>
    if twice < t.unit then some n
    else if t.unit < twice then some (n + 1)
    else match tie with
      | .up => some (n + 1)
      | .even => some (if n % 2 = 0 then n else n + 1)

/-- The first hit on the grids `10 ^ exponent`, `10 ^ (exponent - 1)`, …, `fuel` of them. -/
def Target.search (t : Target) (tie : Tie) : (fuel : Nat) → (exponent : Int) → Decimal
  | 0, exponent =>
    let g := t.onGrid exponent
    ⟨g.value * g.scale / g.unit, exponent⟩
  | fuel + 1, exponent =>
    match (t.onGrid exponent).pick? tie with
    | some n => ⟨n, exponent⟩
    | none => t.search tie fuel (exponent - 1)

/-- The shortest decimal that reads back as `significand * 2 ^ exponent`; seventeen digits always
do. -/
def shortest (f : FloatFormat) (tie : Tie) (significand : Nat) (exponent : Int) : Decimal :=
  if significand = 0 then ⟨0, 0⟩
  else
    let t := Target.of f significand exponent
    let start := logQuotient (t.value * t.scale) t.unit
    stripZeros 20 (t.search tie 17 start)

end Decimal

end EventVm
