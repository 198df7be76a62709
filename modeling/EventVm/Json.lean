import EventVm.Text.Hex

/-!
# JSON text

Pretty-printed JSON with an indentation of two blanks. Objects keep the order of their members;
empty arrays and objects take no line of their own. Strings escape quotes, backslashes and control
characters, and nothing else.
-/

namespace EventVm

/-- A JSON value. Numbers are given by their text. -/
inductive Json where
  | null
  | bool (b : Bool)
  | number (text : String)
  | string (s : String)
  | array (items : List Json)
  | object (members : List (String × Json))

namespace Json

/-- The number with the given value. -/
def nat (n : Nat) : Json :=
  number (toString n)

/-- The way a character is written inside a string. -/
def escape (c : Char) : List Char :=
  if c = '"' then ['\\', '"']
  else if c = '\\' then ['\\', '\\']
  else if c = '\n' then ['\\', 'n']
  else if c = '\r' then ['\\', 'r']
  else if c = '\t' then ['\\', 't']
  else if c = '\x08' then ['\\', 'b']
  else if c = '\x0c' then ['\\', 'f']
  else if c.toNat < 0x20 then
    '\\' :: 'u' :: '0' :: '0' :: [Text.hexDigit (c.toNat / 16), Text.hexDigit c.toNat]
  else [c]

/-- A string in quotes. -/
def quoted (s : String) : String :=
  String.ofList ('"' :: s.toList.flatMap escape ++ ['"'])

/-- A new line at the given depth. -/
def newLine (depth : Nat) : String :=
  String.ofList ('\n' :: List.replicate (2 * depth) ' ')

/-- Items between brackets, each on a line of its own. -/
def enclosed (left right : String) (depth : Nat) : List String → String
  | [] => left ++ right
  | items =>
    left ++ ",".intercalate (items.map (newLine (depth + 1) ++ ·)) ++ newLine depth ++ right

mutual

/-- The text of a value at the given depth. -/
def pretty (depth : Nat) : Json → String
  | null => "null"
  | bool b => if b then "true" else "false"
  | number text => text
  | string s => quoted s
  | array items => enclosed "[" "]" depth (prettyItems (depth + 1) items)
  | object members => enclosed "\x7b" "\x7d" depth (prettyMembers (depth + 1) members)

/-- The texts of array items. -/
def prettyItems (depth : Nat) : List Json → List String
  | [] => []
  | item :: items => pretty depth item :: prettyItems depth items

/-- The texts of object members. -/
def prettyMembers (depth : Nat) : List (String × Json) → List String
  | [] => []
  | (name, v) :: members =>
    (quoted name ++ ": " ++ pretty depth v) :: prettyMembers depth members

end

end Json

end EventVm
