import EventVm.SemVer.Version

/-!
# Version requirements

A requirement is a list of comparators that all have to match, written with commas; the empty list
is `*`. A comparator names one to three numbers; `^` and no operator allow everything up to the next
version that counts as incompatible, `~` keeps the numbers that are given. A pre-release matches
only where some comparator names a pre-release of the very same version.
-/

namespace EventVm

/-- How a comparator compares. -/
inductive ComparatorOp where
  | exact
  | greater
  | greaterEq
  | less
  | lessEq
  | tilde
  | caret
  | wildcard
  deriving DecidableEq, Repr

/-- The operator in text. -/
def ComparatorOp.symbol : ComparatorOp → String
  | exact => "="
  | greater => ">"
  | greaterEq => ">="
  | less => "<"
  | lessEq => "<="
  | tilde => "~"
  | caret => "^"
  | wildcard => ""

/-- A comparison with a version some of whose numbers may be open. -/
structure Comparator where
  op : ComparatorOp
  major : Nat
  minor : Option Nat
  patch : Option Nat
  pre : String
  deriving DecidableEq, Repr

/-- A list of comparators that all have to match. -/
structure VersionReq where
  comparators : List Comparator
  deriving DecidableEq, Repr

namespace Comparator

/-- A comparator in text. -/
def display (c : Comparator) : String :=
  let star := if c.op = .wildcard then ".*" else ""
  let rest := match c.minor, c.patch with
    | none, _ => star
    | some minor, none => s!".{minor}" ++ star
    | some minor, some patch =>
      s!".{minor}.{patch}" ++ if c.pre.isEmpty then "" else "-" ++ c.pre
  c.op.symbol ++ toString c.major ++ rest

/-- Whether a version has all the numbers given and the pre-release. -/
def matchesExact (c : Comparator) (v : Version) : Bool :=
  v.major == c.major && c.minor.all (v.minor == ·) && c.patch.all (v.patch == ·) && v.pre == c.pre

/-- The order of a version and a comparator, where open numbers make them equal to neither side. -/
def order? (c : Comparator) (v : Version) : Option Ordering :=
  if v.major ≠ c.major then some (compare v.major c.major)
  else match c.minor with
    | none => none
    | some minor =>
      if v.minor ≠ minor then some (compare v.minor minor)
      else match c.patch with
        | none => none
        | some patch =>
          if v.patch ≠ patch then some (compare v.patch patch)
          else some (Version.comparePre v.pre c.pre)

def matchesGreater (c : Comparator) (v : Version) : Bool :=
  c.order? v == some .gt

def matchesLess (c : Comparator) (v : Version) : Bool :=
  c.order? v == some .lt

/-- Whether the pre-release of a version is not before the comparator's. -/
def preReached (c : Comparator) (v : Version) : Bool :=
  Version.comparePre v.pre c.pre != .lt

/-- Keeps major and minor as given; the patch number may grow. -/
def matchesTilde (c : Comparator) (v : Version) : Bool :=
  v.major == c.major && c.minor.all (v.minor == ·) &&
    match c.patch with
    | some patch => if v.patch ≠ patch then patch < v.patch else c.preReached v
    | none => c.preReached v

/-- Keeps the first number that is not zero; what follows it may grow. -/
def matchesCaret (c : Comparator) (v : Version) : Bool :=
  v.major == c.major &&
    match c.minor, c.patch with
    | none, _ => true
    | some minor, none => if 0 < c.major then minor ≤ v.minor else v.minor == minor
    | some minor, some patch =>
      if 0 < c.major ∧ v.minor ≠ minor then minor < v.minor
      else if v.minor ≠ minor then false
      else if (0 < c.major ∨ 0 < minor) ∧ v.patch ≠ patch then patch < v.patch
      else if v.patch ≠ patch then false
      else c.preReached v

/-- Whether the numbers of a version satisfy a comparator. -/
def accepts (c : Comparator) (v : Version) : Bool :=
  match c.op with
  | .exact | .wildcard => c.matchesExact v
  | .greater => c.matchesGreater v
  | .greaterEq => c.matchesExact v || c.matchesGreater v
  | .less => c.matchesLess v
  | .lessEq => c.matchesExact v || c.matchesLess v
  | .tilde => c.matchesTilde v
  | .caret => c.matchesCaret v

/-- Whether a comparator names a pre-release of the very same version. -/
def namesPreOf (c : Comparator) (v : Version) : Bool :=
  c.major == v.major && c.minor == some v.minor && c.patch == some v.patch && !c.pre.isEmpty

/-! ### Reading -/

/-- Drops the spaces in front. -/
def dropSpaces (cs : List Char) : List Char :=
  cs.dropWhile (· == ' ')

/-- Drops one of the signs for an open number. -/
def dropStar : List Char → Option (List Char)
  | c :: cs => if c = '*' ∨ c = 'x' ∨ c = 'X' then some cs else none
  | [] => none

/-- Reads an operator, if there is one. -/
def readOp : List Char → Option ComparatorOp × List Char
  | '=' :: cs => (some .exact, cs)
  | '>' :: '=' :: cs => (some .greaterEq, cs)
  | '>' :: cs => (some .greater, cs)
  | '<' :: '=' :: cs => (some .lessEq, cs)
  | '<' :: cs => (some .less, cs)
  | '~' :: cs => (some .tilde, cs)
  | '^' :: cs => (some .caret, cs)
  | cs => (none, cs)

/-- A number, or a sign for an open one. -/
inductive Place where
  | absent
  | open
  | number (n : Nat)
  deriving DecidableEq, Repr

/-- The number at a place. -/
def Place.number? : Place → Option Nat
  | number n => some n
  | absent | .open => none

/-- Reads a full stop and the number or star after it, if there is a full stop. -/
def readPlace : List Char → Option (Place × List Char)
  | '.' :: cs =>
    match dropStar cs with
    | some cs => some (.open, cs)
    | none => (Version.readNumber cs).map fun (n, cs) => (.number n, cs)
  | cs => some (.absent, cs)

/-- Reads a comparator and the spaces after it. No number follows an open one, and a pre-release or
build only a patch number; builds are dropped. -/
def read (cs : List Char) : Option (Comparator × List Char) := do
  let (op, cs) := readOp cs
  let (major, cs) ← Version.readNumber (dropSpaces cs)
  let (minor, cs) ← readPlace cs
  let (patch, cs) ← if minor = .absent then some (.absent, cs) else readPlace cs
  if minor = .open ∧ patch.number?.isSome then none
  let star := minor = .open ∨ patch = .open
  let op := op.getD (if star then .wildcard else .caret)
  let (pre, cs) ←
    if patch.number?.isSome then Version.readPart '-' false cs else some ("", cs)
  let (_, cs) ←
    if patch.number?.isSome then Version.readPart '+' true cs else some ("", cs)
  return (⟨op, major, minor.number?, patch.number?, pre⟩, dropSpaces cs)

end Comparator

namespace VersionReq

/-- A requirement in text. -/
def display (r : VersionReq) : String :=
  if r.comparators.isEmpty then "*"
  else ", ".intercalate (r.comparators.map Comparator.display)

/-- Whether a version satisfies a requirement. -/
def accepts (r : VersionReq) (v : Version) : Bool :=
  r.comparators.all (·.accepts v) && (v.pre.isEmpty || r.comparators.any (·.namesPreOf v))

/-- Reads comparators separated by commas, `room` of them at most. -/
def readList : (room : Nat) → List Char → Option (List Comparator)
  | 0, _ => none
  | room + 1, cs => do
    let (c, cs) ← Comparator.read cs
    match cs with
    | [] => return [c]
    | ',' :: cs => return c :: (← readList room (Comparator.dropSpaces cs))
    | _ => none

/-- The requirement that a text writes: a star alone, or up to 32 comparators. -/
def parse? (text : String) : Option VersionReq :=
  let cs := Comparator.dropSpaces text.toList
  match Comparator.dropStar cs with
  | some rest => if (Comparator.dropSpaces rest).isEmpty then some ⟨[]⟩ else none
  | none => (readList 32 cs).map VersionReq.mk

/-- Everything compatible with a major version. -/
def caret (major : Nat) : VersionReq :=
  ⟨[⟨.caret, major, none, none, ""⟩]⟩

end VersionReq

end EventVm
