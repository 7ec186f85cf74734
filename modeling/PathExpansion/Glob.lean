import PathExpansion.Pattern

/-!
# Globs

A glob describes one name.  It is read into pieces from left to right, each piece is written as a
pattern, and their concatenation is the pattern of the glob.  Wildcards become groups, so that what
they matched can be referred to; parentheses of the glob are kept as groups of its author; anything
else stands for itself.

* `Glob.Piece`, `Glob.pieces` — the pieces of a glob.
* `Glob.hasMagic` — whether a name is a glob at all.
* `Glob.pattern` — the text of the pattern.
-/

namespace PathExpansion.Glob

/-- A piece of a glob. -/
inductive Piece where
  /-- A character that stands for itself. -/
  | literal (c : Char)
  /-- A run of `count` question marks, exactly as many characters. -/
  | several (count : Nat)
  /-- A run of stars, any number of characters. -/
  | anything
  /-- A set in brackets, without the brackets and the mark of negation. -/
  | set (negated : Bool) (body : List Char)
  /-- A parenthesis. -/
  | parenthesis (c : Char)
deriving DecidableEq, Repr

/-- The characters that make a name a glob. -/
def isMagic (c : Char) : Bool := c == '*' || c == '?' || c == '['

/-- A name is a glob if it contains a wildcard character. -/
def hasMagic (name : String) : Bool := name.toList.any isMagic

/-- The body of a set and what follows its closing bracket, from behind the opening bracket and the
mark of negation.  A closing bracket right at the start is a member if another one follows, and
closes an empty set otherwise.  `none` if nothing closes the set. -/
def closeSet? : List Char → Option (List Char × List Char)
  | ']' :: rest =>
    if rest.contains ']' then
      some (']' :: rest.takeWhile (· != ']'), (rest.dropWhile (· != ']')).drop 1)
    else some ([], rest)
  | cs =>
    if cs.contains ']' then some (cs.takeWhile (· != ']'), (cs.dropWhile (· != ']')).drop 1)
    else none

/-- The piece that an opening bracket begins, and what follows it.  Without a closing bracket it
stands for itself. -/
def bracket (rest : List Char) : Piece × List Char :=
  let negated := rest.head? = some '!'
  match closeSet? (if negated then rest.drop 1 else rest) with
  | some (body, after) => (.set negated body, after)
  | none => (.literal '[', rest)

/-- The first piece of a glob and what follows it. -/
def first (c : Char) (rest : List Char) : Piece × List Char :=
  if c = '?' then (.several (1 + (rest.takeWhile (· == '?')).length), rest.dropWhile (· == '?'))
  else if c = '*' then (.anything, rest.dropWhile (· == '*'))
  else if c = '[' then bracket rest
  else if c = '(' || c = ')' then (.parenthesis c, rest)
  else (.literal c, rest)

/-- What follows a set is no longer than the text that the set was read from. -/
theorem closeSet?_length {cs body after : List Char} (h : closeSet? cs = some (body, after)) :
    after.length ≤ cs.length := by
  have hdrop (cs : List Char) : ((cs.dropWhile (· != ']')).drop 1).length ≤ cs.length :=
    ((List.drop_sublist 1 _).trans (List.dropWhile_sublist _)).length_le
  unfold closeSet? at h
  split at h
  · next rest =>
    split at h <;> cases h
    · exact Nat.le_succ_of_le (hdrop rest)
    · exact Nat.le_succ _
  · split at h <;> cases h
    exact hdrop cs

/-- What follows a bracket and what it begins is no longer than what follows the bracket. -/
theorem bracket_length (rest : List Char) : (bracket rest).2.length ≤ rest.length := by
  simp only [bracket]
  split
  · next body after hclose =>
    refine Nat.le_trans (closeSet?_length hclose) ?_
    split
    · exact (List.drop_sublist 1 rest).length_le
    · exact Nat.le_refl _
  · exact Nat.le_refl _

/-- A piece takes its first character at least. -/
theorem first_length (c : Char) (rest : List Char) : (first c rest).2.length ≤ rest.length := by
  unfold first
  split
  · exact (List.dropWhile_sublist _).length_le
  split
  · exact (List.dropWhile_sublist _).length_le
  split
  · exact bracket_length rest
  split <;> exact Nat.le_refl _

/-- The pieces of a glob, from left to right. -/
def pieces : List Char → List Piece
  | [] => []
  | c :: rest => (first c rest).1 :: pieces (first c rest).2
termination_by cs => cs.length
decreasing_by
  have := first_length c rest
  simp only [List.length_cons]
  omega

/-- The body of a set as a pattern: intervals keep their meaning, and the characters that mean
something only in the sets of patterns lose it. -/
def escapeBody : List Char → List Char
  | [] => []
  | c :: cs =>
    if c = '\\' || c = '[' || c = '^' then '\\' :: c :: escapeBody cs else c :: escapeBody cs

/-- The pattern of a piece. -/
def Piece.pattern : Piece → List Char
  | .literal c => escapeList [c]
  | .several count => "([^/]\x7b".toList ++ Nat.toDigits 10 count ++ "\x7d)".toList
  | .anything => "([^/]*)".toList
  | .set true body => "[^".toList ++ escapeBody body ++ [']']
  | .set false body => '[' :: escapeBody body ++ [']']
  | .parenthesis c => [c]

/-- The text of the pattern of a glob. -/
def pattern (glob : String) : String :=
  String.ofList ((pieces glob.toList).flatMap Piece.pattern)

end PathExpansion.Glob
