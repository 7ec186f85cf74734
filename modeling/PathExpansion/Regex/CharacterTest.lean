import PathExpansion.Text.Blank
import PathExpansion.Text.Case
import PathExpansion.Text.Digit
import PathExpansion.Text.Letter

/-!
# Tests on one character

The leaves of a pattern that consume a character: a literal, a set in brackets, and the dot.  How
letters compare is fixed per leaf, because flags may change in the middle of a pattern.

* `Comparison` — exact, or without regard to case, within ASCII or over all characters.
* `Category` — digits, blanks and word characters.
* `SetMember` — one entry of a set.
* `CharacterTest.accepts` — whether a test holds of a character.

Without regard to case a character is compared by its lower case; `Comparison.same` is what two
characters have in common then.  A set without any cased member is tested exactly, so that its
categories see the character as it is.
-/

namespace PathExpansion.Regex

/-- How letters compare. -/
inductive Comparison where
  | exact
  | asciiCase
  | anyCase
deriving DecidableEq, Repr

/-- The classes of characters that have an escape. -/
inductive Category where
  | digit
  | blank
  | word
deriving DecidableEq, Repr

/-- Membership in a category, over ASCII alone or over all characters. -/
def Category.contains (ascii : Bool) : Category → Char → Bool
  | .digit, c => if ascii then c.isDigit else Text.isDigit c
  | .blank, c => if ascii then Text.isAsciiBlank c else Text.isBlank c
  | .word, c => if ascii then c.isAlphanum || c == '_' else Text.isWordCharacter c

/-- An entry of a set: a character, an interval, or a category or its complement. -/
inductive SetMember where
  | one (c : Char)
  | range (low high : Char)
  | category (k : Category) (negated : Bool)
deriving DecidableEq, Repr

/-- A test on one character. -/
inductive CharacterTest where
  | any
  | notNewline
  | literal (how : Comparison) (c : Char)
  | otherThan (how : Comparison) (c : Char)
  | set (how : Comparison) (ascii negated : Bool) (members : List SetMember)
deriving DecidableEq, Repr

/-! ## Case -/

/-- What a character is compared by. -/
def Comparison.key : Comparison → Char → Char
  | .exact, c => c
  | .asciiCase, c => c.toLower
  | .anyCase, c => Text.lower c

/-- Whether a character takes part in case at all. -/
def Comparison.isCased : Comparison → Char → Bool
  | .exact, _ => false
  | .asciiCase, c => c.isAlpha
  | .anyCase, c => Text.isCased c

/-- The keys that count as the key of a character: its own, and the equivalent ones. -/
def Comparison.keys : Comparison → Char → List Char
  | .anyCase, c => Text.lower c :: Text.equivalents (Text.lower c)
  | how, c => [how.key c]

/-- The key of a character that is found lies in an interval if some character of the interval has
that key, or an equivalent one. -/
def Comparison.rangeHasKey (how : Comparison) (low high key : Char) : Bool :=
  let within (c : Char) : Bool := low ≤ c && c ≤ high
  match how with
  | .exact => within key
  | .asciiCase => within key || (key.isLower && within key.toUpper)
  | .anyCase => (Text.sources key).any within || (0xFFFF < high.toNat && within (Text.upper key))

/-! ## Sets -/

/-- Whether a member has a cased character in it, or reaches beyond the basic plane, where every
character is compared by its key. -/
def SetMember.isCased (how : Comparison) : SetMember → Bool
  | .one c => how.isCased c || 0xFFFF < c.toNat
  | .range low high =>
    0xFFFF < high.toNat ||
      (List.range (high.toNat + 1 - low.toNat)).any fun i =>
        how.isCased (Char.ofNat (low.toNat + i))
  | .category _ _ => false

/-- Whether a key belongs to a member. -/
def SetMember.hasKey (how : Comparison) (ascii : Bool) (key : Char) : SetMember → Bool
  | .one c => if 0xFFFF < c.toNat then key == c else (how.keys c).contains key
  | .range low high => how.rangeHasKey low high key
  | .category k negated => k.contains ascii key != negated

/-- The comparison that a set really uses: exact if no member has to do with case. -/
def Comparison.forSet (how : Comparison) (members : List SetMember) : Comparison :=
  if how != .exact && members.any (·.isCased how) then how else .exact

/-! ## The test -/

/-- A character counts as the literal `d`; one that takes no part in case only as itself. -/
def Comparison.same (how : Comparison) (d c : Char) : Bool :=
  if how.isCased d then (how.keys d).contains (how.key c) else c == d

/-- The test holds of a character. -/
def CharacterTest.accepts : CharacterTest → Char → Bool
  | .any, _ => true
  | .notNewline, c => c != '\n'
  | .literal how d, c => how.same d c
  | .otherThan how d, c => !how.same d c
  | .set how ascii negated members, c =>
    members.any (·.hasKey how ascii (how.key c)) != negated

end PathExpansion.Regex
