import PathExpansion.Regex.Escape
import PathExpansion.Regex.Flags

/-!
# Sets in brackets

A set lists characters, intervals and categories between brackets; a circumflex in front takes the
complement.  A closing bracket right at the start is a member.  A minus between two members makes
an interval, and is a member itself in front of the closing bracket.

* `readSet` — reads a set from behind its opening bracket.
-/

namespace PathExpansion.Regex

/-- The character of a code point; surrogates are code points without a character. -/
def character? (n : Nat) : Option Char := if n.isValidChar then some (Char.ofNat n) else none

/-- The members for one code point. -/
def membersOfCode (n : Nat) : List SetMember := (character? n).toList.map .one

/-- The members for an interval of code points.  An end that falls on a surrogate moves to the
nearest character inside. -/
def membersOfRange (low high : Nat) : List SetMember :=
  let low := if (character? low).isSome then low else 0xE000
  let high := if (character? high).isSome then high else 0xD7FF
  if low ≤ high then [.range (Char.ofNat low) (Char.ofNat high)] else []

/-- The members for an escape that stands by itself. -/
def membersOfEscape : Escape → List SetMember
  | .code n => membersOfCode n
  | .category k negated => [.category k negated]
  | .anchor _ | .group _ => []

/-- What a token of a set means, with the tokens behind it that belong to it. -/
def setEscape (t : Token) (rest : List Token) : Except Stop (Escape × Nat) :=
  match t with
  | .plain c => .ok (.code c.toNat, 0)
  | .escaped c => readSetEscape c rest
  | .dangling => .error (.malformed .escapeAtEnd 1)

/-- The interval between two escapes, which both have to be characters in ascending order. -/
def interval (this that : Token) (low high : Escape) (after : List Token) :
    Except Stop (List SetMember) :=
  let bad := Stop.malformed (.badRange this.text that.text)
    (widthOf after + this.width + 1 + that.width)
  match low, high with
  | .code l, .code h => if h < l then .error bad else .ok (membersOfRange l h)
  | _, _ => .error bad

/-- Reads the members of a set up to and with the closing bracket.  `left` tells where the set
began, `fresh` that nothing has been read yet, and `used` how many tokens have been taken. -/
def readMembers (left : Nat) (fresh : Bool) (found : List SetMember) (used : Nat)
    (ts : List Token) : Except Stop (List SetMember × Nat) :=
  match ts with
  | [] => .error (.malformed .unterminatedSet left)
  | this :: rest => do
    settle rest
    if this = .plain ']' && !fresh then return (found, used + 1)
    else
      let (low, n) ← setEscape this rest
      let rest₁ := rest.drop n
      match rest₁ with
      | .plain '-' :: rest₂ =>
        settle rest₂
        match rest₂ with
        | [] => .error (.malformed .unterminatedSet left)
        | that :: rest₃ =>
          settle rest₃
          if that = .plain ']' then
            return (found ++ membersOfEscape low ++ [.one '-'], used + n + 3)
          else
            let (high, m) ← setEscape that rest₃
            let members ← interval this that low high (rest₃.drop m)
            readMembers left false (found ++ members) (used + n + m + 3) (rest.drop (n + 2 + m))
      | _ => readMembers left false (found ++ membersOfEscape low) (used + n + 1) (rest.drop n)
termination_by ts.length
decreasing_by all_goals (simp only [List.length_drop, List.length_cons]; omega)

/-- The test of a set.  A set of one character is that character as a literal. -/
def setTest (flags : Flags) (negated : Bool) (members : List SetMember) : CharacterTest :=
  match members.eraseDups with
  | [.one c] => if negated then .otherThan flags.comparison c else .literal flags.comparison c
  | _ => .set (flags.comparison.forSet members) (flags.contains .ascii) negated members

/-- Reads a set from behind its opening bracket, as a test and the number of tokens it takes. -/
def readSet (flags : Flags) (rest : List Token) : Except Stop (CharacterTest × Nat) := do
  let left := widthOf rest + 1
  let negated := rest.head? = some (.plain '^')
  let skipped := if negated then 1 else 0
  settle (rest.drop skipped)
  let (members, used) ← readMembers left true [] skipped (rest.drop skipped)
  return (setTest flags negated members, used)

end PathExpansion.Regex
