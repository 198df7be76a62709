import EventVm.Decimal.Reading
import EventVm.Text.Integer
import EventVm.Value.Basic

/-!
# Literals

The text of a value, as assembly text and command lines write it. Which literals a type takes:

* `null`: every nullable type;
* `true` and `false`: Booleans;
* integers that are in range, decimal or hexadecimal: the integer types;
* floating-point numerals: single and double, single with any number of `f` at the end;
* text in quotes, taken as it stands: strings and objects.
-/

namespace EventVm.Value

/-- The value that a text writes for a type. -/
def ofLiteral? (t : TypeTag) (text : List Char) : Option Value :=
  let text := Text.trim text
  if text = "null".toList then
    if t.isNullable then some .null else none
  else
    match t with
    | .boolean =>
      if text = "true".toList then some (.boolean true)
      else if text = "false".toList then some (.boolean false)
      else none
    | .int32 => do
      let v ← Text.integerLiteral? text
      if -0x80000000 ≤ v ∧ v < 0x80000000 then some (.int32 (Int32.ofInt v)) else none
    | .int64 => (Text.integerLiteral? text).map fun v => .int64 (Int64.ofInt v)
    | .uint32 => do
      let v ← Text.integerLiteral? text
      if 0 ≤ v ∧ v < 0x100000000 then some (.uint32 (UInt32.ofNat v.toNat)) else none
    | .single =>
      (Decimal.read? .single (text.reverse.dropWhile (· == 'f')).reverse).map
        fun bits => .single (UInt32.ofNat bits)
    | .double => (Decimal.read? .double text).map fun bits => .double (UInt64.ofNat bits)
    | .string | .object => (Text.unquoted? text).map fun s => .string (String.ofList s)
    | .gameObject | .transform | .behaviour => none

end EventVm.Value
