import PathExpansion.Regex.Matcher
import PathExpansion.Regex.Reader

/-!
# Compiled patterns

A pattern keeps the text it was written as beside its tree, because results show it.

* `Pattern.compile` — the pattern of a text, with or without regard to case.
* `Pattern.search?` — the first match in a text, with the texts of its groups.
* `Pattern.finds`, `Pattern.matchesWhole` — whether there is one, and whether the whole text is one.
* `escape` — a text as a pattern that matches just that text.
-/

namespace PathExpansion

/-- A compiled pattern: its text, its tree, the number of its groups, and the flags that hold for
all of it, by request or by letters of its own. -/
structure Pattern where
  source : String
  regex : Regex
  groups : Nat
  flags : Regex.Flags
deriving DecidableEq, Repr

/-- A match: the text of the whole and, for each group from the first on, its text if it took
part. -/
structure Match where
  whole : String
  groups : List (Option String)
deriving DecidableEq, Repr

/-- The text of a group; the whole match is number zero. -/
def Match.group? (m : Match) : (index : Nat) → Option String
  | 0 => some m.whole
  | n + 1 => (m.groups[n]?).join

namespace Pattern

/-- The pattern that a text spells, or the problem with it.  A text that gives a character by its
name is refused whatever the name; that aside, the texts accepted are those with a pattern within
the limits of `Regex.Limit`. -/
def compile (ignoreCase : Bool) (source : String) : Except Regex.Problem Pattern := do
  let flags : Regex.Flags := if ignoreCase then [.ignoreCase] else []
  let reading ← Regex.read flags source.toList
  return ⟨source, reading.regex, reading.groups, reading.flags⟩

/-- The pattern does not regard case. -/
def ignoresCase (p : Pattern) : Bool := p.flags.contains .ignoreCase

/-- The match between two spots of a text. -/
def matchBetween (p : Pattern) (s t : Regex.Spot) : Match :=
  ⟨String.ofList (s.textTo t),
    (List.range p.groups).map fun i => (t.group? (i + 1)).map String.ofList⟩

/-- The first match in a text. -/
def search? (p : Pattern) (text : String) : Option Match :=
  (p.regex.find? text.toList).map fun ends => p.matchBetween ends.1 ends.2

/-- The pattern matches somewhere in a text. -/
def finds (p : Pattern) (text : String) : Bool := (p.regex.find? text.toList).isSome

/-- The pattern matches a text from end to end. -/
def matchesWhole (p : Pattern) (text : String) : Bool := p.regex.matchesAll text.toList

/-- The names of flags in the order in which they are shown. -/
def flagNames : List (Regex.Flag × String) :=
  [(.template, "re.TEMPLATE"), (.ignoreCase, "re.IGNORECASE"), (.multiline, "re.MULTILINE"),
    (.dotAll, "re.DOTALL"), (.verbose, "re.VERBOSE"), (.ascii, "re.ASCII")]

/-- How a pattern shows itself: its text, the quoted form cut at 200 characters, and its flags. -/
def inspect (p : Pattern) : String :=
  let names := (flagNames.filter fun f => p.flags.contains f.1).map (·.2)
  "re.compile(" ++ String.ofList ((Text.quote p.source).toList.take 200)
    ++ (if names = [] then ")" else ", " ++ "|".intercalate names ++ ")")

end Pattern

/-! ## Escaping -/

/-- The characters that need a backslash to stand for themselves: those with a meaning in some
kind of pattern, and the blanks of ASCII. -/
def isSpecial (c : Char) : Bool :=
  "()[]\x7b\x7d?*+-|^$\\.&~# \t\n\r\x0b\x0c".toList.contains c

/-- A text with a backslash in front of each special character. -/
def escapeList : List Char → List Char
  | [] => []
  | c :: cs => if isSpecial c then '\\' :: c :: escapeList cs else c :: escapeList cs

/-- A text as a pattern that matches just that text. -/
def escape (s : String) : String := String.ofList (escapeList s.toList)

end PathExpansion
