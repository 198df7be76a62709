import EventVm.Text.Integer

/-!
# Flat TOML documents

A configuration is a list of lines `key = value` whose values are strings, integers or Booleans.
Comments and empty lines may stand between them. Tables, arrays, dotted keys, floating-point numbers
and dates are never part of a valid configuration and are refused with everything that is not TOML.
-/

namespace EventVm.Toml

/-- A value of a configuration. -/
inductive Item where
  | string (s : String)
  | integer (i : Int)
  | boolean (b : Bool)
  deriving DecidableEq, Repr

/-- Whether a character is a space or tab. -/
def isSpace (c : Char) : Bool :=
  c == ' ' || c == '\t'

/-- Drops spaces and tabs. -/
def dropSpaces (cs : List Char) : List Char :=
  cs.dropWhile isSpace

/-- Drops a line end. -/
def dropLineEnd? : List Char → Option (List Char)
  | '\n' :: cs => some cs
  | '\r' :: '\n' :: cs => some cs
  | _ => none

/-- Drops spaces, tabs and line ends, `fuel` of them at most. -/
def dropBlank : (fuel : Nat) → List Char → List Char
  | 0, cs => cs
  | fuel + 1, cs =>
    match cs with
    | ' ' :: cs | '\t' :: cs => dropBlank fuel cs
    | cs => match dropLineEnd? cs with
      | some cs => dropBlank fuel cs
      | none => cs

/-- Whether a character may stand for itself in a comment or a string: no control character but the
tab. -/
def isPlain (c : Char) : Bool :=
  c == '\t' || (0x20 ≤ c.toNat && c.toNat != 0x7f)

/-- Drops a comment. -/
def dropComment : List Char → List Char
  | '#' :: cs => cs.dropWhile isPlain
  | cs => cs

/-! ### Strings -/

/-- The character with the code point that hexadecimal digits write. -/
def scalar? (digits : List Char) : Option Char := do
  let n ← Text.natural? 16 digits
  if n < 0xD800 ∨ 0xDFFF < n ∧ n < 0x110000 then some (Char.ofNat n) else none

/-- The character that an escape of two characters writes. -/
def shortEscape? : Char → Option Char
  | 'b' => some '\x08'
  | 't' => some '\t'
  | 'n' => some '\n'
  | 'f' => some '\x0c'
  | 'r' => some '\r'
  | '"' => some '"'
  | '\\' => some '\\'
  | _ => none

/-- Reads an escape, from behind its backslash. -/
def readEscape : List Char → Option (Char × List Char)
  | 'u' :: cs =>
    if cs.length < 4 then none else (scalar? (cs.take 4)).map (·, cs.drop 4)
  | 'U' :: cs =>
    if cs.length < 8 then none else (scalar? (cs.take 8)).map (·, cs.drop 8)
  | c :: cs => (shortEscape? c).map (·, cs)
  | [] => none

/-- Reads a string in double quotes from behind the first one. -/
def readBasic : (fuel : Nat) → List Char → Option (List Char × List Char)
  | 0, _ => none
  | fuel + 1, cs =>
    match cs with
    | '"' :: cs => some ([], cs)
    | '\\' :: cs => do
      let (c, cs) ← readEscape cs
      let (s, cs) ← readBasic fuel cs
      return (c :: s, cs)
    | c :: cs =>
      if isPlain c then (readBasic fuel cs).map fun (s, cs) => (c :: s, cs) else none
    | [] => none

/-- Reads a string in single quotes from behind the first one. -/
def readLiteral : List Char → Option (List Char × List Char)
  | '\x27' :: cs => some ([], cs)
  | c :: cs => if isPlain c then (readLiteral cs).map fun (s, cs) => (c :: s, cs) else none
  | [] => none

/-- Splits off the quotes in front: how many there are, and the rest. -/
def countQuotes (quote : Char) (cs : List Char) : Nat × List Char :=
  ((cs.takeWhile (· == quote)).length, cs.dropWhile (· == quote))

/-- Drops a line end behind the opening quotes of a string of several lines. -/
def dropFirstLineEnd (cs : List Char) : List Char :=
  (dropLineEnd? cs).getD cs

/-- Drops the blanks that an escaped line end hides, from behind the backslash. -/
def dropEscapedLineEnd? (cs : List Char) : Option (List Char) :=
  (dropLineEnd? (dropSpaces cs)).map fun cs => dropBlank cs.length cs

/-- Reads a string of several lines from behind its opening quotes. Three to five quotes end it, all
but the last three being part of it. -/
def readLong (quote : Char) (escapes : Bool) : (fuel : Nat) → List Char →
    Option (List Char × List Char)
  | 0, _ => none
  | fuel + 1, cs =>
    let (quotes, rest) := countQuotes quote cs
    if 3 ≤ quotes then
      if quotes ≤ 5 then some (List.replicate (quotes - 3) quote, rest) else none
    else if 0 < quotes then
      (readLong quote escapes fuel rest).map fun (s, cs) => (List.replicate quotes quote ++ s, cs)
    else match dropLineEnd? cs with
      | some cs => (readLong quote escapes fuel cs).map fun (s, cs) => ('\n' :: s, cs)
      | none =>
        match escapes, cs with
        | true, '\\' :: cs =>
          match dropEscapedLineEnd? cs with
          | some cs => readLong quote escapes fuel cs
          | none => do
            let (c, cs) ← readEscape cs
            let (s, cs) ← readLong quote escapes fuel cs
            return (c :: s, cs)
        | _, c :: cs =>
          if isPlain c then (readLong quote escapes fuel cs).map fun (s, cs) => (c :: s, cs)
          else none
        | _, [] => none

/-- Reads a string of any of the four forms. -/
def readString : List Char → Option (List Char × List Char)
  | '"' :: '"' :: '"' :: cs => readLong '"' true (cs.length + 1) (dropFirstLineEnd cs)
  | '"' :: cs => readBasic (cs.length + 1) cs
  | '\x27' :: '\x27' :: '\x27' :: cs => readLong '\x27' false (cs.length + 1) (dropFirstLineEnd cs)
  | '\x27' :: cs => readLiteral cs
  | _ => none

/-! ### Integers -/

/-- The digits of a text in which single underscores may stand between digits. -/
def joinDigits (base : Nat) : List Char → Option (List Char)
  | [] => none
  | [c] => (Text.digit? base c).map fun _ => [c]
  | c :: '_' :: cs => do
    let _ ← Text.digit? base c
    return c :: (← joinDigits base cs)
  | c :: cs => do
    let _ ← Text.digit? base c
    return c :: (← joinDigits base cs)

/-- The number written in a base, underscores allowed. -/
def number? (base : Nat) (cs : List Char) : Option Nat := do
  Text.natural? base (← joinDigits base cs)

/-- The decimal number without leading zeros. -/
def decimal? (cs : List Char) : Option Nat :=
  if cs.head? = some '0' ∧ cs ≠ ['0'] then none else number? 10 cs

/-- The integer of 64 bits that a text writes. -/
def integer? (cs : List Char) : Option Int :=
  let value : Option Int := match cs with
    | '0' :: 'x' :: cs => (number? 16 cs).map Int.ofNat
    | '0' :: 'o' :: cs => (number? 8 cs).map Int.ofNat
    | '0' :: 'b' :: cs => (number? 2 cs).map Int.ofNat
    | '-' :: cs => (decimal? cs).map fun n => -(n : Int)
    | '+' :: cs => (decimal? cs).map Int.ofNat
    | cs => (decimal? cs).map Int.ofNat
  value.filter fun v => -0x8000000000000000 ≤ v && v < 0x8000000000000000

/-! ### Documents -/

/-- Whether a character may stand in a key without quotes. -/
def isBareKeyChar (c : Char) : Bool :=
  c.isAlphanum || c == '_' || c == '-'

/-- Reads a key. -/
def readKey : List Char → Option (List Char × List Char)
  | '"' :: cs => readBasic (cs.length + 1) cs
  | '\x27' :: cs => readLiteral cs
  | cs =>
    let key := cs.takeWhile isBareKeyChar
    if key.isEmpty then none else some (key, cs.drop key.length)

/-- Reads a value. -/
def readItem (cs : List Char) : Option (Item × List Char) :=
  if cs.head? = some '"' ∨ cs.head? = some '\x27' then
    (readString cs).map fun (s, cs) => (.string (String.ofList s), cs)
  else
    let word := cs.takeWhile fun c => isBareKeyChar c || c == '+'
    let rest := cs.drop word.length
    if word = "true".toList then some (.boolean true, rest)
    else if word = "false".toList then some (.boolean false, rest)
    else (integer? word).map fun i => (.integer i, rest)

/-- Drops spaces, a comment and the line end; the document may end instead. -/
def dropRestOfLine (cs : List Char) : Option (List Char) :=
  match dropComment (dropSpaces cs) with
  | [] => some []
  | cs => dropLineEnd? cs

/-- Reads a key and its value. -/
def readEntry (cs : List Char) : Option ((String × Item) × List Char) := do
  let (key, cs) ← readKey cs
  match dropSpaces cs with
  | '=' :: cs =>
    let (item, cs) ← readItem (dropSpaces cs)
    return ((String.ofList key, item), cs)
  | _ => none

/-- Reads the lines of a document, `fuel` of them at most. -/
def readLines : (fuel : Nat) → List Char → Option (List (String × Item))
  | 0, _ => none
  | fuel + 1, cs =>
    match dropSpaces cs with
    | [] => some []
    | c :: cs =>
      if c = '#' ∨ c = '\n' ∨ c = '\r' then do
        readLines fuel (← dropRestOfLine (c :: cs))
      else do
        let (entry, cs) ← readEntry (c :: cs)
        return entry :: (← readLines fuel (← dropRestOfLine cs))

/-- The entries of a document, in order. A byte order mark may stand in front. -/
def parse? (text : String) : Option (List (String × Item)) :=
  let cs := text.toList
  let cs := if cs.head? = some '\uFEFF' then cs.drop 1 else cs
  readLines (cs.length + 1) cs

end EventVm.Toml
