import PathExpansion.Text.Printable

/-!
# Quoted text

Messages show a text between quotation marks, with everything that cannot be seen written as an
escape, so that two different texts never look the same.

* `quote` — a text between single marks, or double ones where that saves an escape.
* `quoteBytes` — the same for a sequence of bytes, marked by a leading `b`.
-/

namespace PathExpansion.Text

/-- The `width` low hexadecimal digits of a number. -/
def hexDigits : (width n : Nat) → List Char
  | 0, _ => []
  | w + 1, n => hexDigits w (n / 16) ++ [Nat.digitChar (n % 16)]

/-- The mark that encloses a text: double only if the text holds a single mark and no double. -/
def quotationMark (cs : List Char) : Char :=
  if cs.contains '\'' && !cs.contains '"' then '"' else '\''

/-- The escape of a character by its number, in the shortest of the three widths that holds it. -/
def numericEscape (c : Char) : List Char :=
  if c.toNat < 0x100 then '\\' :: 'x' :: hexDigits 2 c.toNat
  else if c.toNat < 0x10000 then '\\' :: 'u' :: hexDigits 4 c.toNat
  else '\\' :: 'U' :: hexDigits 8 c.toNat

/-- A character within quotation marks. -/
def escapeCharacter (mark c : Char) : List Char :=
  if c = mark || c = '\\' then ['\\', c]
  else if c = '\n' then ['\\', 'n']
  else if c = '\r' then ['\\', 'r']
  else if c = '\t' then ['\\', 't']
  else if isPrintable c then [c]
  else numericEscape c

/-- Quoted text: marks around, and each character as it is or as an escape. -/
def quote (s : String) : String :=
  let mark := quotationMark s.toList
  String.ofList (mark :: s.toList.flatMap (escapeCharacter mark) ++ [mark])

/-- A byte within quotation marks: only printable ASCII stands for itself. -/
def escapeByte (mark : Char) (b : UInt8) : List Char :=
  let c := Char.ofNat b.toNat
  if b.toNat < 127 then escapeCharacter mark c else '\\' :: 'x' :: hexDigits 2 b.toNat

/-- Quoted bytes. -/
def quoteBytes (bs : List UInt8) : String :=
  let mark := quotationMark (bs.map fun b => Char.ofNat b.toNat)
  String.ofList ('b' :: mark :: bs.flatMap (escapeByte mark) ++ [mark])

end PathExpansion.Text
