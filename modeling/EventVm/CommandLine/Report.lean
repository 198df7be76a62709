import EventVm.Assembly.Draft
import EventVm.Program.Container
import EventVm.World.Behaviour

/-!
# Error reports

A failure is a chain of messages, each explained by the next. The report shows the first and, under
`Caused by:`, the others, numbered if there are several.
-/

namespace EventVm

/-- The messages of a machine error and its causes. -/
def VmError.chain (e : VmError) : List String :=
  e.message :: match e with
    | .invalidProgram e => [e.message]
    | .heap e => [e.message]
    | .function _ e => [e.message]
    | _ => []

/-- The messages of a load error and its causes. -/
def LoadError.chain (e : LoadError) : List String :=
  e.message :: match e with
    | .program e => e.chain
    | .heap e => [e.message]
    | _ => []

/-- The messages of a container error and its cause. -/
def ContainerError.chain (e : ContainerError) : List String :=
  e.message :: match e with
    | .decode e => [e.message]
    | _ => []

/-- The messages of an assembly error and its cause. -/
def AsmError.chain (e : AsmError) : List String :=
  e.message :: match e with
    | .build _ e => [e.message]
    | _ => []

/-- The messages of an options error and its cause. -/
def OptionsError.chain (e : OptionsError) : List String :=
  e.message :: match e with
    | .io e => [e.message]
    | .parse => []

namespace CommandLine

/-- The text with `margin` in front of every line but the first. -/
def indentLines (margin : List Char) (text : String) : String :=
  String.ofList (text.toList.flatMap fun c => if c = '\n' then c :: margin else [c])

/-- The line of a numbered cause, the number being right-aligned in five columns. -/
def numberedCause (cause : String) (number : Nat) : String :=
  let digits := (toString number).toList
  let padding := List.replicate (5 - digits.length) ' '
  String.ofList (padding ++ digits) ++ ": " ++ indentLines (List.replicate 7 ' ') cause

/-- The lines of the causes. -/
def causeLines : List String → List String
  | [cause] => ["    " ++ indentLines (List.replicate 4 ' ') cause]
  | causes => causes.zipIdx.map fun (cause, i) => numberedCause cause i

/-- The report of a failure. -/
def report : List String → String
  | [] => ""
  | [message] => "Error: " ++ message ++ "\n"
  | message :: causes =>
    "Error: " ++ message ++ "\n\nCaused by:\n" ++ String.join ((causeLines causes).map (· ++ "\n"))

end CommandLine

end EventVm
