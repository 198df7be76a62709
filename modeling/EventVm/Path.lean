import EventVm.Text.Utf8

/-!
# Paths

A path is steps between slashes, counted from the root if a slash opens it and from the current
folder otherwise; empty steps do not count, `.` stays and `..` goes up. The last step that is
neither empty nor `.` is the file name, unless it goes up; it splits into a stem and an extension at
its last full stop. A place is where the steps lead.
-/

namespace EventVm

namespace Path

/-- The text between slashes. -/
def split (path : String) : List (List Char) :=
  go [] path.toList
where
  go (current : List Char) : List Char → List (List Char)
    | [] => [current.reverse]
    | c :: cs => if c = '/' then current.reverse :: go [] cs else go (c :: current) cs

/-- The steps of a path. -/
def steps (path : String) : List String :=
  ((split path).filter (!·.isEmpty)).map String.ofList

/-- Whether a path is counted from the root. -/
def isAbsolute (path : String) : Bool :=
  path.toList.head? == some '/'

/-- Whether a slash ends a path, so that a folder is meant. -/
def endsInSlash (path : String) : Bool :=
  path.toList.getLast? == some '/'

/-- The length that counts for limits: that of the UTF-8 bytes. -/
def length (text : String) : Nat :=
  (Utf8.encode text).length

/-- The longest path that a file system takes. -/
def maxLength : Nat := 4095

/-- The longest step that a file system takes. -/
def maxStepLength : Nat := 255

/-- The file name of a path, if it has one. -/
def fileName? (path : String) : Option String :=
  match ((steps path).filter (· != ".")).getLast? with
  | some ".." => none
  | name => name

/-- Splits a file name at its last full stop, unless that is its first character. -/
def splitName (name : String) : String × Option String :=
  let cs := name.toList
  let extension := (cs.reverse.takeWhile (· != '.')).reverse
  let stem := cs.take (cs.length - extension.length - 1)
  if stem.isEmpty then (name, none) else (String.ofList stem, some (String.ofList extension))

/-- The part of a file name in front of the extension. -/
def stem? (path : String) : Option String :=
  (fileName? path).map fun name => (splitName name).1

/-- The part of a file name after the last full stop. -/
def extension? (path : String) : Option String :=
  (fileName? path).bind fun name => (splitName name).2

/-- The path with another extension; what follows the stem of the file name is dropped. The old
extension goes first and leaves its full stop: if that makes `..` of the file name, there is no
longer a file name that could have an extension. -/
def withExtension (path extension : String) : String :=
  match fileName? path with
  | none => path
  | some name =>
    let front := String.ofList ((dropTail path.toList.reverse).drop name.length).reverse
    match splitName name with
    | (".", some _) => front ++ ".."
    | (stem, _) => front ++ stem ++ "." ++ extension
where
  dropTail : List Char → List Char
    | '/' :: cs => dropTail cs
    | '.' :: '/' :: cs => dropTail cs
    | cs => cs

end Path

/-- What a place is counted from. -/
inductive Origin where
  | root
  /-- The folder so many levels above the current one. -/
  | above (levels : Nat)
  deriving DecidableEq, Repr

/-- Where a path leads: names below an origin, the innermost one first. -/
structure Place where
  origin : Origin
  names : List String
  deriving DecidableEq, Repr

namespace Place

/-- Where a path starts. -/
def start (path : String) : Place :=
  ⟨if Path.isAbsolute path then .root else .above 0, []⟩

/-- What has a name in a folder. -/
def child (p : Place) (name : String) : Place :=
  { p with names := name :: p.names }

/-- The folder around a place; around the root there is only itself. -/
def parent : Place → Place
  | ⟨origin, _ :: names⟩ => ⟨origin, names⟩
  | ⟨.root, []⟩ => ⟨.root, []⟩
  | ⟨.above levels, []⟩ => ⟨.above (levels + 1), []⟩

/-- One step further. -/
def step (p : Place) : String → Place
  | "." => p
  | ".." => p.parent
  | name => p.child name

/-- The places that steps come by, from the first to the last one. -/
def trail (p : Place) : List String → List Place
  | [] => [p]
  | step :: steps => p :: (p.step step).trail steps

/-- Where a path leads. -/
def ofPath (path : String) : Place :=
  (Path.steps path).foldl step (start path)

/-- The shortest path to a place. -/
def path (p : Place) : String :=
  match p.origin with
  | .root => "/" ++ "/".intercalate p.names.reverse
  | .above levels =>
    match List.replicate levels ".." ++ p.names.reverse with
    | [] => "."
    | steps => "/".intercalate steps

@[simp]
theorem parent_child (p : Place) (name : String) : (p.child name).parent = p := rfl

end Place

end EventVm
