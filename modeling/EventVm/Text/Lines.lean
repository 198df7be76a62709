/-!
# Lines

A line ends at a line feed, which may have a carriage return in front; the text after the last line
feed is a line of its own unless it is empty.
-/

namespace EventVm.Text

/-- Splits a text at the first occurrence of `sep`, which belongs to neither part. -/
def splitAt? (sep : Char) : List Char → Option (List Char × List Char)
  | [] => none
  | c :: cs =>
    if c = sep then some ([], cs) else (splitAt? sep cs).map fun (head, tail) => (c :: head, tail)

theorem splitAt?_eq_some {sep : Char} {cs head tail : List Char}
    (h : splitAt? sep cs = some (head, tail)) : cs = head ++ sep :: tail ∧ sep ∉ head := by
  induction cs generalizing head tail with
  | nil => simp [splitAt?] at h
  | cons c cs ih =>
    unfold splitAt? at h
    split at h
    · rename_i hc
      cases h
      simp [hc]
    · rename_i hc
      obtain ⟨⟨head', tail'⟩, h', he⟩ := Option.map_eq_some_iff.1 h
      cases he
      obtain ⟨rfl, hn⟩ := ih h'
      simp [hn, Ne.symm hc]

/-- The text without its last character if that is `c`. -/
def dropLast? (c : Char) (cs : List Char) : Option (List Char) :=
  if cs.getLast? = some c then some cs.dropLast else none

/-- The lines of a text, the current one being collected in reverse. -/
def linesFrom (current : List Char) : List Char → List (List Char)
  | [] => if current.isEmpty then [] else [current.reverse]
  | c :: cs =>
    if c = '\n' then
      let line := match current with
        | '\r' :: rest => rest
        | _ => current
      line.reverse :: linesFrom [] cs
    else linesFrom (c :: current) cs

/-- The lines of a text. -/
def lines (cs : List Char) : List (List Char) :=
  linesFrom [] cs

end EventVm.Text
