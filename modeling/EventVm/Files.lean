import EventVm.Path

/-!
# Files

A small tree of files, as far as a command needs one: the contents of files and the folders that
there are, by their places. A path is followed step by step, and every step but the last one must
lead to a folder; the first step that fails says why.
-/

namespace EventVm

/-- Why a file could not be read or written. -/
inductive FileError where
  | notFound
  | notDirectory
  | isDirectory
  /-- A path or a step of it is longer than the limit. -/
  | nameTooLong
  /-- Text was wanted and the bytes are not UTF-8. -/
  | invalidUtf8
  deriving DecidableEq, Repr

/-- The text of a file error. -/
def FileError.message : FileError → String
  | notFound => "No such file or directory (os error 2)"
  | notDirectory => "Not a directory (os error 20)"
  | isDirectory => "Is a directory (os error 21)"
  | nameTooLong => "File name too long (os error 36)"
  | invalidUtf8 => "stream did not contain valid UTF-8"

/-- Files and folders by their places. The root, the current folder and those above it need no
mention. -/
structure FileStore where
  files : List (Place × Bytes)
  folders : List Place

/-- What a path names. -/
inductive Target where
  /-- A folder, named by its way alone. -/
  | folder
  /-- Whatever has the name in the folder. -/
  | entry (folder : Place) (name : String)

namespace FileStore

/-- The contents of the file at a place. -/
def at? (s : FileStore) (p : Place) : Option Bytes :=
  s.files.lookup p

/-- Whether there is a folder at a place. -/
def isFolder (s : FileStore) (p : Place) : Bool :=
  p.names.isEmpty || s.folders.contains p

/-- Goes one step from a folder to another one. -/
def enter (s : FileStore) (p : Place) (step : String) : Except FileError Place :=
  if step = "." ∨ step = ".." then .ok (p.step step)
  else if Path.maxStepLength < Path.length step then .error .nameTooLong
  else if s.isFolder (p.child step) then .ok (p.child step)
  else if (s.at? (p.child step)).isSome then .error .notDirectory
  else .error .notFound

/-- Follows a path up to its last step. -/
def target (s : FileStore) (path : String) : Except FileError Target := do
  if path.isEmpty then throw .notFound
  if Path.maxLength < Path.length path then throw .nameTooLong
  match (Path.steps path).getLast? with
  | none => return .folder
  | some step =>
    let folder ← (Path.steps path).dropLast.foldlM s.enter (.start path)
    return if step = "." ∨ step = ".." then .folder else .entry folder step

/-- The contents of a file. A slash at the end of the path is refused. -/
def read (s : FileStore) (path : String) : Except FileError Bytes := do
  match ← s.target path with
  | .folder => throw .isDirectory
  | .entry folder name =>
    if Path.maxStepLength < Path.length name then throw .nameTooLong
    if s.isFolder (folder.child name) then throw .isDirectory
    match s.at? (folder.child name) with
    | none => throw .notFound
    | some bytes => if Path.endsInSlash path then throw .notDirectory else return bytes

/-- The text of a file. -/
def readText (s : FileStore) (path : String) : Except FileError String := do
  match Utf8.decode? (← s.read path) with
  | some text => return text
  | none => throw .invalidUtf8

/-- Writes a file in an existing folder. With a slash at its end the path can only mean a folder,
whatever there is. -/
def write (s : FileStore) (path : String) (bytes : Bytes) : Except FileError FileStore := do
  match ← s.target path with
  | .folder => throw .isDirectory
  | .entry folder name =>
    let place := folder.child name
    if Path.endsInSlash path || s.isFolder place then throw .isDirectory
    if Path.maxStepLength < Path.length name then throw .nameTooLong
    return { s with files := (place, bytes) :: s.files.filter fun f => f.1 != place }

end FileStore

end EventVm
