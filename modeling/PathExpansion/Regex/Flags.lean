import PathExpansion.Regex.Token
import PathExpansion.Text.Letter

/-!
# Flags

Letters in a group that starts with a question mark change how what follows is read: for the whole
pattern if the group holds nothing else, and for the rest of the group otherwise.

* `Flag`, `Flags` — the letters, and a set of them.
* `Flags.within` — the flags inside a group that turns some on and others off.
* `readFlags` — reads the letters of a group.
-/

namespace PathExpansion.Regex

/-- A flag letter. -/
inductive Flag where
  | ignoreCase
  | locale
  | multiline
  | dotAll
  | verbose
  | ascii
  | template
  | unicode
deriving DecidableEq, Repr

/-- The flag of a letter. -/
def Flag.ofToken? : Token → Option Flag
  | .plain 'i' => some ignoreCase
  | .plain 'L' => some locale
  | .plain 'm' => some multiline
  | .plain 's' => some dotAll
  | .plain 'x' => some verbose
  | .plain 'a' => some ascii
  | .plain 't' => some template
  | .plain 'u' => some unicode
  | _ => none

/-- The flags that choose a repertoire of characters; only one can be in force, and it cannot be
turned off. -/
def Flag.fixesRepertoire : Flag → Bool
  | .ascii | .locale | .unicode => true
  | _ => false

/-- The flags that are in force. -/
abbrev Flags := List Flag

namespace Flags

/-- How letters compare under the flags. -/
def comparison (fs : Flags) : Comparison :=
  if fs.contains .ignoreCase then
    if fs.contains .ascii then .asciiCase else .anyCase
  else .exact

/-- The flags inside a group that turns `on` and `off` some; a new repertoire replaces the old. -/
def within (fs on off : Flags) : Flags :=
  let kept := if on.any Flag.fixesRepertoire then fs.filter (!·.fixesRepertoire) else fs
  (kept ++ on).filter (!off.contains ·)

end Flags

/-- What the letters of a group ask for. -/
inductive FlagRequest where
  | everywhere (on : Flags)
  | here (on off : Flags)
deriving DecidableEq, Repr

/-- The cause to report for a character where a flag letter or `expected` should stand. -/
def notAFlag (t : Token) (expected : Cause) : Cause :=
  match t with
  | .plain c => if Text.isLetter c then .unknownFlag else expected
  | _ => expected

/-- A group of flags is complete: none is global, and none is turned both on and off. -/
def finishFlags (on off : Flags) (rest : List Token) : Except Stop FlagRequest :=
  if off.contains .template then .error (.malformed .globalFlagOff (widthOf rest + 1))
  else if on.any off.contains then .error (.malformed .flagOnAndOff (widthOf rest + 1))
  else .ok (.here on off)

/-- The flag of a letter that is to be turned off, which has been taken. -/
def flagOff (off : Flags) (t : Token) (rest : List Token) : Except Stop Flag :=
  match Flag.ofToken? t with
  | none =>
    let expected : Cause := if off = [] then .missingFlag else .missingColon
    .error (.malformed (notAFlag t expected) (widthOf rest + t.width))
  | some f =>
    if f.fixesRepertoire then .error (.malformed .fixedFlagOff (widthOf rest)) else .ok f

/-- Reads the flags to turn off, from the letter `t` on; `used` counts the tokens taken. -/
def readFlagsOff (on off : Flags) (t : Token) (used : Nat) :
    List Token → Except Stop (FlagRequest × Nat)
  | [] => do
    let _ ← flagOff off t []
    .error (.malformed .missingColon 0)
  | u :: rest => do
    let f ← flagOff off t (u :: rest)
    settle rest
    if u = .plain ':' then
      let request ← finishFlags on (f :: off) rest
      return (request, used + 1)
    else readFlagsOff on (f :: off) u (used + 1) rest

/-- Goes on behind the letters to turn on, where `t` ended them. -/
def endFlagsOn (on : Flags) (t : Token) (used : Nat) (rest : List Token) :
    Except Stop (FlagRequest × Nat) :=
  if t = .plain ')' then .ok (.everywhere on, used)
  else if on.contains .template then .error (.malformed .globalFlagOn (widthOf rest + 1))
  else if t = .plain '-' then
    match rest with
    | [] => .error (.malformed .missingFlag 0)
    | u :: rest => do
      settle rest
      readFlagsOff on [] u (used + 1) rest
  else do
    let request ← finishFlags on [] rest
    return (request, used)

/-- The flag of a letter that is to be turned on, which has been taken. -/
def flagOn (on : Flags) (t : Token) (rest : List Token) : Except Stop Flag :=
  match Flag.ofToken? t with
  | none => .error (.malformed (notAFlag t .flagsNotEnded) (widthOf rest + t.width))
  | some f =>
    if f = .locale then .error (.malformed .localeFlag (widthOf rest))
    else if f.fixesRepertoire && on.any fun g => g.fixesRepertoire && g != f then
      .error (.malformed .incompatibleFlags (widthOf rest))
    else .ok f

/-- Reads the flags to turn on, from the letter `t` on; `used` counts the tokens taken. -/
def readFlagsOn (on : Flags) (t : Token) (used : Nat) :
    List Token → Except Stop (FlagRequest × Nat)
  | [] => do
    let _ ← flagOn on t []
    .error (.malformed .flagsNotEnded 0)
  | u :: rest => do
    let f ← flagOn on t (u :: rest)
    settle rest
    if u = .plain ')' || u = .plain '-' || u = .plain ':' then
      endFlagsOn (f :: on) u (used + 1) rest
    else readFlagsOn (f :: on) u (used + 1) rest

/-- Reads the flags of a group from its first character `t`, a letter or a minus, which has been
taken.  Answers what they ask for and how many more tokens they take. -/
def readFlags (t : Token) (rest : List Token) : Except Stop (FlagRequest × Nat) :=
  if t = .plain '-' then endFlagsOn [] t 0 rest else readFlagsOn [] t 0 rest

end PathExpansion.Regex
