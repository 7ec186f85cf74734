import PathExpansion.Regex.Basic
import PathExpansion.Text.Quoted

/-!
# What can be wrong with the text of a pattern

Reading a pattern stops at the first thing that makes no sense, with a cause and mostly a
position.  Three further problems are limits of numbers and flags rather than errors of form, and
are kept apart because callers report them apart.

* `Cause` — why the text is not a pattern.
* `Limit` — why a well-formed pattern is refused.
* `Problem`, `Problem.message` — either, with the position, and its message.
-/

namespace PathExpansion.Regex

/-- Why a text is not a pattern. -/
inductive Cause where
  | escapeAtEnd
  | badEscape (escape : List Char)
  | incompleteEscape (escape : List Char)
  | octalTooLarge (escape : List Char)
  | missingBrace
  | undefinedCharacterName (name : List Char)
  | noSuchGroup (index : Nat)
  | openGroup
  | groupOfSameLookbehind
  | unterminatedSet
  | badRange (low high : List Char)
  | nothingToRepeat
  | multipleRepeat
  | leastExceedsMost
  | unexpectedEnd
  | missingName (what : String)
  | unterminatedName (terminator : Char)
  | badGroupName (name : List Char)
  | unknownGroupName (name : List Char)
  | redefinedGroup (name : List Char) (new old : Nat)
  | badGroupNumber
  | unknownExtension (text : List Char)
  | unterminatedComment
  | unterminatedGroup
  | unbalancedParenthesis
  | tooManyBranches
  | lateFlags
  | localeFlag
  | incompatibleFlags
  | unknownFlag
  | flagsNotEnded
  | missingFlag
  | missingColon
  | globalFlagOn
  | globalFlagOff
  | fixedFlagOff
  | flagOnAndOff
  | lookbehindWidth
  | lookbehindTooWide
  | repeatInTemplate (greed : Greed)
deriving DecidableEq, Repr

/-- Why a well-formed pattern is refused.  Groups may be nested to any depth here; where a pattern
is read by recursion on a stack, some hundred groups inside each other exhaust it. -/
inductive Limit where
  | repetitionTooLarge
  | numeralTooLong (digits : Nat)
  | asciiAndUnicode
deriving DecidableEq, Repr

/-- A problem of a pattern; the position counts characters from the start of its text. -/
inductive Problem where
  | malformed (cause : Cause) (position : Option Nat)
  | beyond (limit : Limit)
deriving DecidableEq, Repr

/-- A quoted name. -/
def quoteName (name : List Char) : String := Text.quote (String.ofList name)

/-- The wording of a cause. -/
def Cause.text : Cause → String
  | .escapeAtEnd => "bad escape (end of pattern)"
  | .badEscape e => "bad escape " ++ String.ofList e
  | .incompleteEscape e => "incomplete escape " ++ String.ofList e
  | .octalTooLarge e => "octal escape value " ++ String.ofList e ++ " outside of range 0-0o377"
  | .missingBrace => "missing \x7b"
  | .undefinedCharacterName n => "undefined character name " ++ quoteName n
  | .noSuchGroup i => "invalid group reference " ++ toString i
  | .openGroup => "cannot refer to an open group"
  | .groupOfSameLookbehind => "cannot refer to group defined in the same lookbehind subpattern"
  | .unterminatedSet => "unterminated character set"
  | .badRange l h => "bad character range " ++ String.ofList l ++ "-" ++ String.ofList h
  | .nothingToRepeat => "nothing to repeat"
  | .multipleRepeat => "multiple repeat"
  | .leastExceedsMost => "min repeat greater than max repeat"
  | .unexpectedEnd => "unexpected end of pattern"
  | .missingName what => "missing " ++ what
  | .unterminatedName t => "missing " ++ String.ofList [t] ++ ", unterminated name"
  | .badGroupName n => "bad character in group name " ++ quoteName n
  | .unknownGroupName n => "unknown group name " ++ quoteName n
  | .redefinedGroup n new old =>
    "redefinition of group name " ++ quoteName n ++ " as group " ++ toString new
      ++ "; was group " ++ toString old
  | .badGroupNumber => "bad group number"
  | .unknownExtension e => "unknown extension ?" ++ String.ofList e
  | .unterminatedComment => "missing ), unterminated comment"
  | .unterminatedGroup => "missing ), unterminated subpattern"
  | .unbalancedParenthesis => "unbalanced parenthesis"
  | .tooManyBranches => "conditional backref with more than two branches"
  | .lateFlags => "global flags not at the start of the expression"
  | .localeFlag => "bad inline flags: cannot use 'L' flag with a str pattern"
  | .incompatibleFlags => "bad inline flags: flags 'a', 'u' and 'L' are incompatible"
  | .unknownFlag => "unknown flag"
  | .flagsNotEnded => "missing -, : or )"
  | .missingFlag => "missing flag"
  | .missingColon => "missing :"
  | .globalFlagOn => "bad inline flags: cannot turn on global flag"
  | .globalFlagOff => "bad inline flags: cannot turn off global flag"
  | .fixedFlagOff => "bad inline flags: cannot turn off flags 'a', 'u' and 'L'"
  | .flagOnAndOff => "bad inline flags: flag turned on and off"
  | .lookbehindWidth => "look-behind requires fixed-width pattern"
  | .lookbehindTooWide => "looks too much behind"
  | .repeatInTemplate greed =>
    "internal: unsupported template operator " ++ match greed with
      | .greedy => "MAX_REPEAT"
      | .lazy => "MIN_REPEAT"
      | .possessive => "POSSESSIVE_REPEAT"

/-- The wording of a limit. -/
def Limit.text : Limit → String
  | .repetitionTooLarge => "the repetition number is too large"
  | .numeralTooLong n =>
    "Exceeds the limit (4300 digits) for integer string conversion: value has " ++ toString n
      ++ " digits; use sys.set_int_max_str_digits() to increase the limit"
  | .asciiAndUnicode => "ASCII and UNICODE flags are incompatible"

/-- The line, from one, and the column, from one, of a position in a text. -/
def lineAndColumn (text : List Char) (position : Nat) : Nat × Nat :=
  let before := text.take position
  (before.count '\n' + 1, (before.reverse.takeWhile (· != '\n')).length + 1)

/-- The message of a problem with the pattern that has the given text: the cause, the position if
there is one, and line and column too if the text has several lines. -/
def Problem.message (text : String) : Problem → String
  | .beyond limit => limit.text
  | .malformed cause none => cause.text
  | .malformed cause (some position) =>
    let cs := text.toList
    let placed := cause.text ++ " at position " ++ toString position
    if cs.contains '\n' then
      let (line, column) := lineAndColumn cs position
      placed ++ " (line " ++ toString line ++ ", column " ++ toString column ++ ")"
    else placed

end PathExpansion.Regex
