import PathExpansion.Regex.CharacterTest

/-!
# Patterns as trees

What a pattern says once its text has been read: characters, sequences, choices, repetitions,
groups that remember what they matched, and conditions that look without consuming.

* `Anchor` — the conditions on a position alone.
* `Greed` — the order in which a repetition tries its counts.
* `Regex` — the tree.
-/

namespace PathExpansion

namespace Regex

/-- A condition on a position in the text. -/
inductive Anchor where
  | textStart
  | lineStart
  | textEnd
  | lastLineEnd
  | lineEnd
  | wordBoundary (ascii : Bool)
  | notWordBoundary (ascii : Bool)
deriving DecidableEq, Repr

/-- A repetition tries many rounds first, few first, or many without ever giving one back. -/
inductive Greed where
  | greedy
  | lazy
  | possessive
deriving DecidableEq, Repr

end Regex

/-- A pattern. -/
inductive Regex where
  | empty
  | one (test : Regex.CharacterTest)
  | anchor (a : Regex.Anchor)
  | seq (first second : Regex)
  | alt (first second : Regex)
  | capture (index : Nat) (body : Regex)
  | reference (how : Regex.Comparison) (index : Nat)
  | repeated (greed : Regex.Greed) (least : Nat) (most : Option Nat) (body : Regex)
  | atomic (body : Regex)
  | ahead (negated : Bool) (body : Regex)
  | behind (negated : Bool) (width : Nat) (body : Regex)
  | ifMatched (index : Nat) (yes no : Regex)
deriving DecidableEq, Repr

namespace Regex

/-- The patterns of a list, one after the other. -/
def sequence : List Regex → Regex
  | [] => empty
  | [r] => r
  | r :: rs => seq r (sequence rs)

/-- The patterns of a list as choices, tried in order; the first is given apart, because a choice
has one alternative at least. -/
def choice (first : Regex) : List Regex → Regex
  | [] => first
  | r :: rs => alt first (choice r rs)

end Regex

end PathExpansion
