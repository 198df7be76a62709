import EventVm.Program.Verification

/-!
# Listings

A listing shows a program as assembly text: the variables with their initial values, then the
instructions with the entry points as labels in front. Operands are shown by the name of the
variable or entry point that they point at, if there is one, and otherwise in hexadecimal.
-/

namespace EventVm.Assembly

/-- The initial value of a variable, `this` while it waits for the host. -/
def literalText (h : Heap) (address : UInt32) : String :=
  match h.slot? address with
  | some ⟨_, .value v⟩ => v.display
  | some ⟨_, .pending _⟩ => "this"
  | none => "null"

/-- The lines of the data region. -/
def dataLines (p : Program) : List String :=
  [".data_start"] ++
    p.symbols.exported.map (fun s => s!"    .export {s.name}") ++
    p.sync.entries.map (fun e => s!"    .sync {e.name}, {e.interpolation.keyword}") ++
    p.symbols.symbols.map
      (fun s => s!"    {s.name}: %{s.type.name}, {literalText p.heap s.address}") ++
    [".data_end"]

/-- The symbol that an operand points at. Jumps point at entry points, all else at variables; the
halt address points at nothing. -/
def operandSymbol? (p : Program) (op : Opcode) (operand : UInt32) : Option Symbol :=
  if op.takesCodeOffset then
    if operand = haltAddress then none else p.entryPoints.at? operand
  else p.symbols.at? operand

/-- An operand as shown in a listing. -/
def operandText (p : Program) (op : Opcode) (operand : UInt32) : String :=
  match operandSymbol? p op operand with
  | some s => s.name
  | none => Text.operandHex operand

/-- The lines that make an entry point of the next instruction. -/
def labelLines (s : Symbol) : List String :=
  (if s.exported then [s!"    .export {s.name}"] else []) ++ [s!"    {s.name}:"]

/-- The line of an instruction. -/
def instructionLine (p : Program) (i : Instruction) : String :=
  let operand := match i.operand with
    | some operand => s!", {operandText p i.opcode operand}"
    | none => ""
  "        " ++ i.opcode.mnemonic ++ operand

/-- The lines of the code region. -/
def codeLines (p : Program) (is : List Instruction) : List String :=
  [".code_start"] ++
    is.flatMap (fun i =>
      (p.entryPoints.symbols.filter (fun s => s.address == i.offset)).flatMap labelLines ++
        [instructionLine p i]) ++
    [".code_end"]

/-- The program as assembly text. -/
def disassemble (p : Program) : Except VerifyError String := do
  let is ← p.instructions
  let title := s!"# {p.name} ({p.instructionSet} {p.version.display})"
  let lines := [title] ++ dataLines p ++ [""] ++ codeLines p is
  return String.join (lines.map (· ++ "\n"))

end EventVm.Assembly
