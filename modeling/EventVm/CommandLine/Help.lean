import EventVm.CommandLine.Arguments

/-!
# Help

The help of a topic: what it is for, how it is used, then sections of two columns, the second one
two blanks behind the widest entry of the first.
-/

namespace EventVm.CommandLine

/-- A section of a help text: a title over rows of two columns. -/
structure Section where
  title : String
  rows : List (String × String)

/-- The text of a section. -/
def Section.text (s : Section) : String :=
  let width := (s.rows.map (·.1.length)).foldl max 0
  let row (r : String × String) :=
    "  " ++ r.1 ++ String.ofList (List.replicate (width + 2 - r.1.length) ' ') ++ r.2 ++ "\n"
  "\n" ++ s.title ++ ":\n" ++ String.join (s.rows.map row)

/-- What a topic is for. -/
def Topic.about : Topic → String
  | program => "Udon bytecode toolchain"
  | command .assemble => "Assemble Udon assembly (.uasm) into a program file"
  | command .verify => "Check that a program is well formed and runnable"
  | command .disassemble => "Print a program as assembly"
  | command .inspect => "Print a JSON summary of a program"
  | command .run => "Load a program into a behaviour and dispatch events to it"
  | help => "Print this message or the help of the given subcommand(s)"

/-- How a topic is used. -/
def Topic.usage : Topic → String
  | program => "udon [OPTIONS] <COMMAND>"
  | command .assemble => "udon assemble [OPTIONS] <INPUT>"
  | command .verify => "udon verify [OPTIONS] <FILE>"
  | command .disassemble => "udon disasm [OPTIONS] <FILE>"
  | command .inspect => "udon inspect [OPTIONS] <FILE>"
  | command .run => "udon run [OPTIONS] <FILE>"
  | help => "udon help [COMMAND]..."

/-- The row of the configuration. -/
def configRow : String × String :=
  ("    --config <CONFIG>", "Runtime options file (TOML)")

/-- The row of help. -/
def helpRow : String × String :=
  ("-h, --help", "Print help")

/-- The section of a command's file. -/
def fileSection : Section :=
  ⟨"Arguments", [("<FILE>", "Program file or assembly source")]⟩

/-- The sections of a topic. -/
def Topic.sections : Topic → List Section
  | program => [
      ⟨"Commands", [
        ("assemble", about (command .assemble)),
        ("verify", about (command .verify)),
        ("disasm", about (command .disassemble)),
        ("inspect", about (command .inspect)),
        ("run", about (command .run)),
        ("help", about help)]⟩,
      ⟨"Options", [configRow, helpRow, ("-V, --version", "Print version")]⟩]
  | command .assemble => [
      ⟨"Arguments", [("<INPUT>", "Assembly source")]⟩,
      ⟨"Options", [
        configRow,
        ("-o, --output <OUTPUT>", "Output file (defaults to the input with a .udonb extension)"),
        helpRow]⟩]
  | command .run => [
      fileSection,
      ⟨"Options", [
        configRow,
        ("-e, --event <EVENTS>", "Event to dispatch, in order (defaults to _start)"),
        ("    --set <ASSIGNMENTS>", "Public variable override, as name=value"),
        ("    --json", "Print final variables as JSON"),
        helpRow]⟩]
  | command .verify | command .disassemble | command .inspect =>
    [fileSection, ⟨"Options", [configRow, helpRow]⟩]
  | help => [⟨"Arguments", [("[COMMAND]...", "Print help for the subcommand(s)")]⟩]

/-- The help of a topic. -/
def Topic.text (t : Topic) : String :=
  t.about ++ "\n\nUsage: " ++ t.usage ++ "\n" ++ String.join (t.sections.map Section.text)

/-- The answer to a request for the version. -/
def versionText : String := "udon 0.1.0\n"

end EventVm.CommandLine
