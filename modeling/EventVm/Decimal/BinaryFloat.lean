/-!
# Binary floating-point formats

The bits of a binary floating-point number are a sign, a biased exponent and a significand. `decode`
says which number they stand for; `encodeRounded` finds the bits of the number nearest to a
quotient, a tie going to the even significand.
-/

namespace EventVm

/-- An interchange format, by the widths of its stored significand and its exponent. -/
structure FloatFormat where
  significandBits : Nat
  exponentBits : Nat
  deriving DecidableEq, Repr

/-- What a bit pattern stands for. -/
inductive FloatValue where
  | nan
  | infinite (negative : Bool)
  /-- The number `significand * 2 ^ exponent`, negated or not. -/
  | finite (negative : Bool) (significand : Nat) (exponent : Int)
  deriving DecidableEq, Repr

namespace FloatFormat

/-- The format of 32 bits. -/
def single : FloatFormat := ⟨23, 8⟩

/-- The format of 64 bits. -/
def double : FloatFormat := ⟨52, 11⟩

/-- The weight of the significand's leading bit, which is not stored. -/
def hiddenBit (f : FloatFormat) : Nat :=
  Nat.pow 2 f.significandBits

/-- The exponent of the last place of the smallest numbers. -/
def leastExponent (f : FloatFormat) : Int :=
  2 - (Nat.pow 2 (f.exponentBits - 1) : Int) - f.significandBits

/-- The place value of the sign bit. -/
def signWeight (f : FloatFormat) : Nat :=
  Nat.pow 2 (f.significandBits + f.exponentBits)

/-- The bits of positive infinity. -/
def infinityBits (f : FloatFormat) : Nat :=
  (Nat.pow 2 f.exponentBits - 1) * f.hiddenBit

/-- The bits of the quiet NaN without sign. -/
def nanBits (f : FloatFormat) : Nat :=
  f.infinityBits + Nat.pow 2 (f.significandBits - 1)

/-- The bits with the sign added. -/
def withSign (f : FloatFormat) (negative : Bool) (magnitude : Nat) : Nat :=
  if negative then f.signWeight + magnitude else magnitude

/-- What a bit pattern stands for. -/
def decode (f : FloatFormat) (bits : Nat) : FloatValue :=
  let negative := f.signWeight ≤ bits
  let magnitude := bits % f.signWeight
  let fraction := magnitude % f.hiddenBit
  let biased := magnitude / f.hiddenBit
  if f.infinityBits < magnitude then .nan
  else if magnitude = f.infinityBits then .infinite negative
  else if biased = 0 then .finite negative fraction f.leastExponent
  else .finite negative (f.hiddenBit + fraction) (f.leastExponent + (biased - 1 : Nat))

/-- Whether two bit patterns stand for equal numbers: a NaN equals nothing, and
both zeros are equal. -/
def equal (f : FloatFormat) (a b : Nat) : Bool :=
  match f.decode a, f.decode b with
  | .nan, _ | _, .nan => false
  | .finite _ 0 _, .finite _ 0 _ => true
  | v, w => v == w

/-- The integer nearest to a quotient, the even one of two. -/
def roundQuotient (num den : Nat) : Nat :=
  let q := num / den
  let r := 2 * (num % den)
  if den < r ∨ r = den ∧ q % 2 = 1 then q + 1 else q

/-- The integer part of the binary logarithm of a positive quotient. -/
def logQuotient (num den : Nat) : Int :=
  let guess : Int := (num.log2 : Int) - (den.log2 : Int)
  let weight := Nat.pow 2 guess.natAbs
  let reached := if guess < 0 then den ≤ num * weight else den * weight ≤ num
  if reached then guess else guess - 1

/-- The magnitude bits of the number nearest to a quotient, infinity for what is too large. -/
def encodeRounded (f : FloatFormat) (num den : Nat) : Nat :=
  if num = 0 then 0
  else
    let exponent := max f.leastExponent (logQuotient num den - f.significandBits)
    let weight := Nat.pow 2 exponent.natAbs
    let significand :=
      if exponent < 0 then roundQuotient (num * weight) den else roundQuotient num (den * weight)
    min f.infinityBits
      ((exponent - f.leastExponent).toNat * f.hiddenBit + significand)

end FloatFormat

end EventVm
