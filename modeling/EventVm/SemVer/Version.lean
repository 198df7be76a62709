/-!
# Semantic versions

A version is three numbers, then an optional pre-release after `-` and optional build metadata after
`+`, both lists of dotted identifiers. Numbers have no leading zeros and fit 64 bits. A version
with a pre-release comes before the one without.
-/

namespace EventVm

/-- A semantic version. An absent pre-release or build is the empty text. -/
structure Version where
  major : Nat
  minor : Nat
  patch : Nat
  pre : String
  build : String
  deriving DecidableEq, Repr

namespace Version

/-- The release with the given numbers. -/
def release (major minor patch : Nat) : Version :=
  ⟨major, minor, patch, "", ""⟩

/-- A version in text. -/
def display (v : Version) : String :=
  let core := s!"{v.major}.{v.minor}.{v.patch}"
  let pre := if v.pre.isEmpty then "" else "-" ++ v.pre
  let build := if v.build.isEmpty then "" else "+" ++ v.build
  core ++ pre ++ build

/-- Whether a character is an ASCII digit. -/
def isDigit (c : Char) : Bool :=
  '0' ≤ c && c ≤ '9'

/-- Whether a character may stand in an identifier. -/
def isIdentifierChar (c : Char) : Bool :=
  isDigit c || ('a' ≤ c && c ≤ 'z') || ('A' ≤ c && c ≤ 'Z') || c == '-'

/-- Reads a number off the front of a text. -/
def readNumber (cs : List Char) : Option (Nat × List Char) :=
  let ds := cs.takeWhile isDigit
  let n := ds.foldl (fun n c => n * 10 + (c.toNat - '0'.toNat)) 0
  if ds.isEmpty then none
  else if 1 < ds.length ∧ ds.head? = some '0' then none
  else if 0x10000000000000000 ≤ n then none
  else some (n, cs.dropWhile isDigit)

/-- The segments of a text between full stops. -/
def segments : List Char → List (List Char)
  | [] => [[]]
  | c :: cs =>
    if c = '.' then [] :: segments cs
    else match segments cs with
      | [] => [[c]]
      | s :: ss => (c :: s) :: ss

/-- Whether a segment is a number with a leading zero. -/
def hasLeadingZero (segment : List Char) : Bool :=
  segment.all isDigit && decide (1 < segment.length) && segment.head? == some '0'

/-- Reads dotted identifiers off the front of a text, at least one. Numbers with leading zeros are
identifiers of builds only. -/
def readIdentifiers (zeros : Bool) (cs : List Char) : Option (String × List Char) :=
  let taken := cs.takeWhile fun c => isIdentifierChar c || c == '.'
  if taken.isEmpty then none
  else if (segments taken).all fun s => !s.isEmpty && (zeros || !hasLeadingZero s) then
    some (String.ofList taken, cs.drop taken.length)
  else none

/-- Reads a part that starts with `mark`; without the mark the part is empty. -/
def readPart (mark : Char) (zeros : Bool) : List Char → Option (String × List Char)
  | c :: cs => if c = mark then readIdentifiers zeros cs else some ("", c :: cs)
  | [] => some ("", [])

/-- Drops a full stop. -/
def dropDot : List Char → Option (List Char)
  | '.' :: cs => some cs
  | _ => none

/-- The version that a text writes. -/
def parse? (text : String) : Option Version := do
  let (major, cs) ← readNumber text.toList
  let (minor, cs) ← readNumber (← dropDot cs)
  let (patch, cs) ← readNumber (← dropDot cs)
  let (pre, cs) ← readPart '-' false cs
  let (build, cs) ← readPart '+' true cs
  if cs.isEmpty then some ⟨major, minor, patch, pre, build⟩ else none

/-- The order of two pre-release identifiers: numbers by value and before other identifiers, which
are ordered by their characters. -/
def compareIdentifiers (a b : List Char) : Ordering :=
  match a.all isDigit, b.all isDigit with
  | false, true => .gt
  | true, false => .lt
  | false, false => compare a b
  | true, true => (compare a.length b.length).then (compare a b)

/-- The order of two pre-releases, identifier by identifier, the longer one being greater. -/
def compareSegments : List (List Char) → List (List Char) → Ordering
  | [], [] => .eq
  | [], _ :: _ => .lt
  | _ :: _, [] => .gt
  | a :: as, b :: bs => (compareIdentifiers a b).then (compareSegments as bs)

/-- The order of pre-releases; none at all is the greatest. -/
def comparePre (a b : String) : Ordering :=
  match a.isEmpty, b.isEmpty with
  | true, true => .eq
  | true, false => .gt
  | false, true => .lt
  | false, false => compareSegments (segments a.toList) (segments b.toList)

end Version

end EventVm
