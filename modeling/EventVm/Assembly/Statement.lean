import EventVm.Opcode
import EventVm.SyncTable
import EventVm.Text.Lines
import EventVm.Value.Literal

/-!
# Statements of assembly text

A source text has data regions, which declare variables, and code regions, which hold labels and
instructions. A line is one statement; blanks around it and a comment after it, from `#` outside
quotes on, do not count. What a line means depends on the region it stands in.

```text
.data_start
    .export count
    .sync count, linear
    count: %SystemInt32, 0
.data_end
.code_start
    .export _interact
    _interact:
        PUSH, count
        JUMP, 0xFFFFFFFC
.code_end
```
-/

namespace EventVm.Assembly

/-- Where a line stands. -/
inductive Region where
  | outside
  | data
  | code
  deriving DecidableEq, Repr

/-- What is wrong with a line by itself. -/
inductive LineFault where
  | exportWithoutName
  | exportOutside
  | syncOutsideData
  | unknownInterpolation (text : String)
  | outsideRegion
  | declarationExpected
  | typeWithoutPercent
  | unknownType (text : String)
  | invalidLiteral (type : TypeTag) (text : String)
  | duplicateLabel (name : String)
  | unknownInstruction (text : String)
  | unterminatedString
  | invalidAddress (text : String)
  | operandMissing (op : Opcode)
  | operandUnexpected (op : Opcode)
  | stringAsTarget
  | stringAsOperand (op : Opcode)
  deriving DecidableEq, Repr

/-- The text of a line fault. -/
def LineFault.message : LineFault → String
  | exportWithoutName => ".export needs a name"
  | exportOutside => ".export outside of a section"
  | syncOutsideData => ".sync is only allowed in the data section"
  | unknownInterpolation text => s!"unknown interpolation {text}"
  | outsideRegion => "statement outside of a section"
  | declarationExpected => "expected `name: %Type, value`"
  | typeWithoutPercent => "type names start with %"
  | unknownType text => s!"unknown type {text}"
  | invalidLiteral type text => s!"invalid {type.name} literal {text}"
  | duplicateLabel name => s!"duplicate label {name}"
  | unknownInstruction text => s!"unknown instruction {text}"
  | unterminatedString => "unterminated string"
  | invalidAddress text => s!"invalid address {text}"
  | operandMissing op => s!"{op.mnemonic} needs an operand"
  | operandUnexpected op => s!"{op.mnemonic} takes no operand"
  | stringAsTarget => "jump targets must be labels or addresses"
  | stringAsOperand op => s!"{op.mnemonic} does not take a string"

/-- An operand as written. -/
inductive Operand where
  | number (n : UInt32)
  | name (text : String)
  | string (text : String)
  deriving DecidableEq, Repr

/-- What a variable holds at first. -/
inductive Initial where
  /-- The instance, once the host says what it is. -/
  | this
  | value (v : Value)
  /-- The default value of the type. -/
  | default
  deriving DecidableEq, Repr

/-- A line that is not empty. -/
inductive Statement where
  | enter (region : Region)
  | exportName (name : String)
  | sync (name : String) (i : Interpolation)
  | declare (name : String) (type : TypeTag) (initial : Initial)
  | label (name : String)
  | instruction (op : Opcode) (operand : Option Operand)
  deriving DecidableEq, Repr

/-- The line without its comment. Inside quotes a backslash protects the next character. -/
def stripComment : (quoted : Bool) → List Char → List Char
  | _, [] => []
  | true, '\\' :: c :: cs => '\\' :: c :: stripComment true cs
  | quoted, c :: cs =>
    if c = '"' then c :: stripComment (!quoted) cs
    else if c = '#' ∧ quoted = false then []
    else c :: stripComment quoted cs

/-- The text in front of the first comma and the text after it, both trimmed. -/
def splitComma (cs : List Char) : List Char × Option (List Char) :=
  match Text.splitAt? ',' cs with
  | some (head, tail) => (Text.trim head, some (Text.trim tail))
  | none => (Text.trim cs, none)

/-- What follows a keyword at the beginning of a text. -/
def afterKeyword? (keyword cs : List Char) : Option (List Char) :=
  if keyword.isPrefixOf cs then some (cs.drop keyword.length) else none

/-- The region that a line begins. -/
def region? (cs : List Char) : Option Region :=
  if cs = ".data_start".toList then some .data
  else if cs = ".code_start".toList then some .code
  else if cs = ".data_end".toList ∨ cs = ".code_end".toList then some .outside
  else none

/-- An export, from the text after its keyword. -/
def parseExport (region : Region) (rest : List Char) : Except LineFault Statement :=
  let name := Text.trim rest
  if name.isEmpty then .error .exportWithoutName
  else if region = .outside then .error .exportOutside
  else .ok (.exportName (String.ofList name))

/-- A synced variable, from the text after its keyword. -/
def parseSync (region : Region) (rest : List Char) : Except LineFault Statement :=
  if region ≠ .data then .error .syncOutsideData
  else
    let (name, mode) := splitComma (Text.trim rest)
    match mode with
    | none => .ok (.sync (String.ofList name) .none)
    | some mode =>
      match Interpolation.ofKeyword? (String.ofList mode) with
      | some i => .ok (.sync (String.ofList name) i)
      | none => .error (.unknownInterpolation (String.ofList mode))

/-- The value that a data line writes. Text in quotes is a string with escapes, whatever the
type. -/
def initialValue? (type : TypeTag) (literal : List Char) : Option Value :=
  if literal.head? = some '"' then (Text.quotedString? literal).map .string
  else Value.ofLiteral? type literal

/-- A declaration: a name, a type and a value or `this`. -/
def parseDeclaration (text : List Char) : Except LineFault Statement := do
  let some (name, declaration) := Text.splitAt? ':' text | throw .declarationExpected
  let (typeText, literal) := splitComma (Text.trim declaration)
  let '%' :: typeName := typeText | throw .typeWithoutPercent
  let some type := TypeTag.ofName? (String.ofList typeName)
    | throw (.unknownType (String.ofList typeName))
  let initial ← match literal with
    | none => pure .default
    | some literal =>
      if literal = "this".toList then pure .this
      else match initialValue? type literal with
        | some v => pure (.value v)
        | none => throw (.invalidLiteral type (String.ofList literal))
  return .declare (String.ofList (Text.trim name)) type initial

/-- An operand: text in quotes, a number if it starts with a digit, else a name. -/
def parseOperand (token : List Char) : Except LineFault Operand :=
  match token with
  | '"' :: _ =>
    match Text.quotedString? token with
    | some s => .ok (.string s)
    | none => .error .unterminatedString
  | c :: _ =>
    if '0' ≤ c ∧ c ≤ '9' then
      match Value.ofLiteral? .uint32 token with
      | some (.uint32 n) => .ok (.number n)
      | _ => .error (.invalidAddress (String.ofList token))
    else .ok (.name (String.ofList token))
  | [] => .ok (.name "")

/-- An instruction: a mnemonic and, after a comma, its operand. -/
def parseInstruction (text : List Char) : Except LineFault Statement := do
  let (mnemonic, token) := splitComma text
  let some op := Opcode.ofMnemonic? (String.ofList mnemonic)
    | throw (.unknownInstruction (String.ofList mnemonic))
  match token with
  | none => if op.hasOperand then throw (.operandMissing op) else return .instruction op none
  | some token =>
    let operand ← parseOperand token
    if op.hasOperand then return .instruction op (some operand)
    else throw (.operandUnexpected op)

/-- A line of a code region: a label ends in a colon. -/
def parseCodeLine (text : List Char) : Except LineFault Statement :=
  match Text.dropLast? ':' text with
  | some name => .ok (.label (String.ofList (Text.trim name)))
  | none => parseInstruction text

/-- The statement that a trimmed line without comment makes. -/
def parseStatement (region : Region) (text : List Char) : Except LineFault Statement :=
  match region? text with
  | some r => .ok (.enter r)
  | none =>
    match afterKeyword? ".export".toList text, afterKeyword? ".sync".toList text with
    | some rest, _ => parseExport region rest
    | none, some rest => parseSync region rest
    | none, none =>
      match region with
      | .outside => .error .outsideRegion
      | .data => parseDeclaration text
      | .code => parseCodeLine text

end EventVm.Assembly
