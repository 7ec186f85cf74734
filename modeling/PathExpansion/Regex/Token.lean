import PathExpansion.Regex.Problem

/-!
# The tokens of a pattern

The text of a pattern is read token by token: a character, or a backslash together with the
character behind it.  A backslash that ends the text has nothing behind it; it is noticed as soon
as everything before it has been taken, even if what was taken is wrong by itself.

Positions are told by how much of the text is left, which needs no counter to be carried along.

* `Token`, `tokens` — the tokens of a text.
* `Stop` — a problem, located by what was left.
* `settle` — the check made whenever tokens have been taken.
-/

namespace PathExpansion.Regex

/-- A token: a character, a backslash with a character, or a backslash at the end. -/
inductive Token where
  | plain (c : Char)
  | escaped (c : Char)
  | dangling
deriving DecidableEq, Repr

/-- The text of a token. -/
def Token.text : Token → List Char
  | .plain c => [c]
  | .escaped c => ['\\', c]
  | .dangling => ['\\']

/-- The number of characters of a token. -/
def Token.width : Token → Nat
  | .plain _ => 1
  | .escaped _ => 2
  | .dangling => 1

/-- The tokens of a text. -/
def tokens : List Char → List Token
  | [] => []
  | ['\\'] => [.dangling]
  | '\\' :: c :: rest => .escaped c :: tokens rest
  | c :: rest => .plain c :: tokens rest

/-- The number of characters of a list of tokens. -/
def widthOf : List Token → Nat
  | [] => 0
  | t :: ts => t.width + widthOf ts

/-- A problem, located by the number of characters from the place in question to the end. -/
inductive Stop where
  | malformed (cause : Cause) (left : Nat)
  | beyond (limit : Limit)
deriving DecidableEq, Repr

/-- A problem located from the start of a text of the given length. -/
def Stop.problem (length : Nat) : Stop → Problem
  | .malformed cause left => .malformed cause (some (length - left))
  | .beyond limit => .beyond limit

/-- The check made when tokens have been taken: a lone backslash must not be next. -/
def settle (rest : List Token) : Except Stop Unit :=
  if rest = [.dangling] then .error (.malformed .escapeAtEnd 1) else .ok ()

/-- The leading plain characters of a class, at most `most` of them. -/
def leading (p : Char → Bool) : (most : Nat) → List Token → List Char
  | 0, _ => []
  | n + 1, .plain c :: ts => if p c then c :: leading p n ts else []
  | _ + 1, _ => []

end PathExpansion.Regex
