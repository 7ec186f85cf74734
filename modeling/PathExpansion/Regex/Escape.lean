import PathExpansion.Regex.Token
import PathExpansion.Text.Digit

/-!
# Escapes

A backslash turns a letter into a category, a position, a control character or a character given
by its number, and takes the special meaning from anything else.  Inside a set there are no
positions, and a number is never the number of a group.

* `Escape` — what an escape means.
* `readEscape`, `readSetEscape` — the two readings.

Each reader is given the escaped character and the tokens behind it, and answers the meaning and
how many of those tokens belong to it.
-/

namespace PathExpansion.Regex

/-- What an escape means. -/
inductive Escape where
  | code (n : Nat)
  | category (k : Category) (negated : Bool)
  | anchor (a : Char)
  | group (index : Nat)
deriving DecidableEq, Repr

/-- The hexadecimal digits. -/
def isHexDigit (c : Char) : Bool :=
  c.isDigit || ('a' ≤ c && c ≤ 'f') || ('A' ≤ c && c ≤ 'F')

/-- The octal digits. -/
def isOctalDigit (c : Char) : Bool := '0' ≤ c && c ≤ '7'

/-- The value of a hexadecimal digit. -/
def hexValue (c : Char) : Nat :=
  if c.isDigit then c.toNat - 48 else c.toLower.toNat - 87

/-- The number that digits spell in a base. -/
def spelled (base : Nat) (ds : List Char) : Nat := ds.foldl (fun n d => base * n + hexValue d) 0

/-- The control characters that have an escape of one letter. -/
def controlCode? : Char → Option Nat
  | 'a' => some 7
  | 'b' => some 8
  | 't' => some 9
  | 'n' => some 10
  | 'v' => some 11
  | 'f' => some 12
  | 'r' => some 13
  | '\\' => some 92
  | _ => none

/-- The categories that have an escape: the capital letter stands for the complement. -/
def category? : Char → Option (Category × Bool)
  | 'd' => some (.digit, false)
  | 'D' => some (.digit, true)
  | 's' => some (.blank, false)
  | 'S' => some (.blank, true)
  | 'w' => some (.word, false)
  | 'W' => some (.word, true)
  | _ => none

/-- The number of digits that a numeric escape needs. -/
def hexLength? : Char → Option Nat
  | 'x' => some 2
  | 'u' => some 4
  | 'U' => some 8
  | _ => none

/-- Reads a character given by exactly `count` hexadecimal digits. -/
def readHex (letter : Char) (count : Nat) (rest : List Token) : Except Stop (Escape × Nat) := do
  let ds := leading isHexDigit count rest
  let after := rest.drop ds.length
  settle after
  let escape := '\\' :: letter :: ds
  if ds.length < count then
    .error (.malformed (.incompleteEscape escape) (widthOf after + escape.length))
  else if 0x10FFFF < spelled 16 ds then
    .error (.malformed (.badEscape escape) (widthOf after + escape.length))
  else return (.code (spelled 16 ds), ds.length)

/-- Reads the text up to a terminator, which is taken too; answers it and the tokens taken.  The
text must not be empty. -/
def readUntil (terminator : Char) (what : String) (found : List Char) (used : Nat) :
    List Token → Except Stop (List Char × Nat)
  | [] =>
    if found = [] then .error (.malformed (.missingName what) 0)
    else .error (.malformed (.unterminatedName terminator) found.length)
  | t :: rest => do
    settle rest
    if t = .plain terminator then
      if found = [] then .error (.malformed (.missingName what) (widthOf rest + 1))
      else return (found, used + 1)
    else readUntil terminator what (found ++ t.text) (used + 1) rest

/-- Reads a character given by its name in braces.  No table of names is kept here, so every name is
refused as unknown, also those by which a standard calls a character. -/
def readNamed (rest : List Token) : Except Stop (Escape × Nat) :=
  match rest with
  | .plain '{' :: rest => do
    settle rest
    let (name, used) ← readUntil '}' "character name" [] 0 rest
    .error (.malformed (.undefinedCharacterName name)
      (widthOf (rest.drop used) + name.length + 4))
  | _ => .error (.malformed .missingBrace (widthOf rest))

/-- A character that means itself when escaped: any but a letter of ASCII, which is reserved. -/
def readItself (c : Char) (rest : List Token) : Except Stop (Escape × Nat) :=
  if c.isAlpha then .error (.malformed (.badEscape ['\\', c]) (widthOf rest + 2))
  else .ok (.code c.toNat, 0)

/-- An octal number must denote one of the first 256 characters. -/
def octal (ds : List Char) (after : List Token) (used : Nat) : Except Stop (Escape × Nat) :=
  if 255 < spelled 8 ds then
    .error (.malformed (.octalTooLarge ('\\' :: ds)) (widthOf after + ds.length + 1))
  else .ok (.code (spelled 8 ds), used)

/-- Reads an escape that starts with a digit: a character in octal if it starts with zero or has
three octal digits, and otherwise the number of a group, in one digit or two. -/
def readNumber (c : Char) (rest : List Token) : Except Stop (Escape × Nat) := do
  if c = '0' then
    let ds := leading isOctalDigit 2 rest
    let after := rest.drop ds.length
    settle after
    octal (c :: ds) after ds.length
  else
    let second := leading Char.isDigit 1 rest
    let rest₁ := rest.drop second.length
    settle rest₁
    let third := if (c :: second).all isOctalDigit && second.length = 1 then
      leading isOctalDigit 1 rest₁ else []
    if third = [] then return (.group (spelled 10 (c :: second)), second.length)
    else
      let rest₂ := rest₁.drop 1
      settle rest₂
      octal (c :: second ++ third) rest₂ 2

/-- Reads an escape outside a set. -/
def readEscape (c : Char) (rest : List Token) : Except Stop (Escape × Nat) :=
  match category? c with
  | some (k, negated) => .ok (.category k negated, 0)
  | none =>
    if c = 'A' || c = 'b' || c = 'B' || c = 'Z' then .ok (.anchor c, 0)
    else
      match controlCode? c, hexLength? c with
      | some n, _ => .ok (.code n, 0)
      | none, some count => readHex c count rest
      | none, none =>
        if c = 'N' then readNamed rest
        else if c.isDigit then readNumber c rest
        else readItself c rest

/-- Reads an escape inside a set. -/
def readSetEscape (c : Char) (rest : List Token) : Except Stop (Escape × Nat) :=
  match controlCode? c, category? c, hexLength? c with
  | some n, _, _ => .ok (.code n, 0)
  | none, some (k, negated), _ => .ok (.category k negated, 0)
  | none, none, some count => readHex c count rest
  | none, none, none =>
    if c = 'N' then readNamed rest
    else if isOctalDigit c then do
      let ds := leading isOctalDigit 2 rest
      let after := rest.drop ds.length
      settle after
      octal (c :: ds) after ds.length
    else if c.isDigit then .error (.malformed (.badEscape ['\\', c]) (widthOf rest + 2))
    else readItself c rest

end PathExpansion.Regex
