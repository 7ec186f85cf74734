import PathExpansion.Text.Ranges

/-!
# Decimal digits of every script

A decimal digit is a character of category `Nd`.  The standard assigns them in runs of ten that
start at the script's zero, so a digit's value is its distance from the start of its interval,
modulo ten.

* `digitValue?` — the value of a digit, `none` for any other character.
* `numberOfDigits` — the number that a list of digits spells in base ten.
-/

namespace PathExpansion.Text

/-- The code points of category `Nd`, as ascending closed intervals that start at a zero. -/
def digitRanges : Array (Nat × Nat) := #[
  (48, 57), (1632, 1641), (1776, 1785), (1984, 1993), (2406, 2415), (2534, 2543), (2662, 2671),
  (2790, 2799), (2918, 2927), (3046, 3055), (3174, 3183), (3302, 3311), (3430, 3439),
  (3558, 3567), (3664, 3673), (3792, 3801), (3872, 3881), (4160, 4169), (4240, 4249),
  (6112, 6121), (6160, 6169), (6470, 6479), (6608, 6617), (6784, 6793), (6800, 6809),
  (6992, 7001), (7088, 7097), (7232, 7241), (7248, 7257), (42528, 42537), (43216, 43225),
  (43264, 43273), (43472, 43481), (43504, 43513), (43600, 43609), (44016, 44025), (65296, 65305),
  (66720, 66729), (68912, 68921), (69734, 69743), (69872, 69881), (69942, 69951), (70096, 70105),
  (70384, 70393), (70736, 70745), (70864, 70873), (71248, 71257), (71360, 71369), (71472, 71481),
  (71904, 71913), (72016, 72025), (72784, 72793), (73040, 73049), (73120, 73129), (92768, 92777),
  (92864, 92873), (93008, 93017), (120782, 120831), (123200, 123209), (123632, 123641),
  (125264, 125273), (130032, 130041)]

/-- The value of a decimal digit, in any script; `none` if `c` is not one. -/
def digitValue? (c : Char) : Option Nat :=
  if c.toNat < 128 then
    if c.isDigit then some (c.toNat - 48) else none
  else
    (Ranges.find? digitRanges c.toNat).map fun r => (c.toNat - r.1) % 10

/-- The decimal digits of every script. -/
def isDigit (c : Char) : Bool := (digitValue? c).isSome

/-- The number spelled by a list of digits, most significant first.  A character that is not a
digit counts as zero; callers pass digits only. -/
def numberOfDigits (cs : List Char) : Nat :=
  cs.foldl (fun n c => 10 * n + (digitValue? c).getD 0) 0

end PathExpansion.Text
