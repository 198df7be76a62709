import EventVm.Text.Lines
import EventVm.Text.Visible

/-!
# Quoted text

Strings are shown between double quotes. Tab, carriage return, line feed, quote, backslash and NUL
have escapes of two characters; every other character that is not shown as itself is written by its
code point. Assembly text reads strings by a simpler rule: a backslash makes the next character
stand for itself, except that `n` is a line feed and `t` a tab.
-/

namespace EventVm.Text

/-- A character by its number. -/
def codePoint (c : Char) : List Char :=
  '\\' :: 'u' :: '{' :: Nat.toDigits 16 c.toNat ++ ['}']

/-- The way a character is shown inside quotes. -/
def escape (c : Char) : List Char :=
  if c = '\t' then ['\\', 't']
  else if c = '\r' then ['\\', 'r']
  else if c = '\n' then ['\\', 'n']
  else if c = '"' then ['\\', '"']
  else if c = '\\' then ['\\', '\\']
  else if c = '\x00' then ['\\', '0']
  else if isVisible c then [c]
  else codePoint c

/-- The text between double quotes. -/
def quoted (cs : List Char) : List Char :=
  '"' :: cs.flatMap escape ++ ['"']

/-- A string between double quotes. -/
def quote (s : String) : String :=
  String.ofList (quoted s.toList)

/-- The text between two quotes that stand first and last. -/
def unquoted? : List Char → Option (List Char)
  | '"' :: cs => dropLast? '"' cs
  | _ => none

/-- Replaces every escape by its character; a backslash at the end escapes nothing. -/
def unescape? : List Char → Option (List Char)
  | [] => some []
  | ['\\'] => none
  | '\\' :: c :: cs =>
    (unescape? cs).map ((if c = 'n' then '\n' else if c = 't' then '\t' else c) :: ·)
  | c :: cs => (unescape? cs).map (c :: ·)

/-- The string that a token in quotes writes. -/
def quotedString? (token : List Char) : Option String := do
  let inner ← unquoted? token
  return String.ofList (← unescape? inner)

end EventVm.Text
