/-!
# Decimal fractions in double precision

A number that is written with a fraction or an exponent stands for the double-precision number
nearest to it, and is shown with the fewest digits that are still nearest to that number.  Both
roundings are exact computations on natural numbers.

* `Decimal` — a decimal fraction `digits · 10 ^ exponent` with a sign, or an infinity.
* `Decimal.shortest` — the shortest fraction that stands for the same double-precision number.
* `Decimal.text` — positional between `10 ^ -4` and `10 ^ 16`, with an exponent outside.
-/

namespace PathExpansion.Text

/-- A decimal fraction, or an infinity beyond the largest double-precision number. -/
inductive Decimal where
  | finite (negative : Bool) (digits : Nat) (exponent : Int)
  | infinite (negative : Bool)
deriving DecidableEq, Repr

namespace Decimal

/-- A non-negative rational number, as numerator and denominator. -/
structure Ratio where
  num : Nat
  den : Nat

/-- The quotient rounded to the nearest natural number, a half to the even neighbour. -/
def Ratio.round (r : Ratio) : Nat :=
  let q := r.num / r.den
  let rest := 2 * (r.num % r.den)
  if r.den < rest || (rest = r.den && q % 2 = 1) then q + 1 else q

/-- The quotient `r / base ^ k`. -/
def Ratio.scaleDown (r : Ratio) (base : Nat) (k : Int) : Ratio :=
  if 0 ≤ k then ⟨r.num, r.den * base.pow k.toNat⟩ else ⟨r.num * base.pow (-k).toNat, r.den⟩

/-- The comparison `a < b`. -/
def Ratio.lt (a b : Ratio) : Bool := a.num * b.den < b.num * a.den

/-- A positive number as `mantissa · 2 ^ power` with at most 53 bits, the nearest one. -/
def toBinary (r : Ratio) : Nat × Int :=
  let guess : Int := Int.ofNat r.num.log2 - Int.ofNat r.den.log2 - 52
  let fits (q : Int) : Bool := (r.scaleDown 2 q).lt ⟨Nat.pow 2 53, 1⟩
  let low := if fits (guess - 1) then guess - 1 else if fits guess then guess else guess + 1
  let power := max low (-1074)
  let mantissa := (r.scaleDown 2 power).round
  if mantissa = Nat.pow 2 53 then (Nat.pow 2 52, power + 1) else (mantissa, power)

/-- The number of decimal digits of a natural number. -/
def digitCount (n : Nat) : Nat := (Nat.toDigits 10 n).length

/-- The number of digits before the point of a positive rational, zero or negative below one. -/
def magnitude (r : Ratio) : Int :=
  let guess : Int := Int.ofNat (digitCount r.num) - Int.ofNat (digitCount r.den)
  if (r.scaleDown 10 guess).lt ⟨1, 1⟩ then guess else guess + 1

/-- A candidate of `count` digits that lies within the interval of numbers that round to
`mantissa · 2 ^ power`: of the two neighbours on the grid the nearer, if it lies inside. -/
def candidate? (mantissa : Nat) (power : Int) (count : Nat) : Option (Nat × Int) :=
  let value : Ratio := Ratio.scaleDown ⟨mantissa, 1⟩ 2 (-power)
  let step : Int := magnitude value - Int.ofNat count
  let tight := mantissa = Nat.pow 2 52 && -1074 < power
  let low : Ratio :=
    Ratio.scaleDown (if tight then ⟨4 * mantissa - 1, 4⟩ else ⟨2 * mantissa - 1, 2⟩) 2 (-power)
  let high : Ratio := Ratio.scaleDown ⟨2 * mantissa + 1, 2⟩ 2 (-power)
  let inside (n : Nat) : Bool :=
    let r := Ratio.scaleDown ⟨n, 1⟩ 10 (-step)
    if mantissa % 2 = 0 then !r.lt low && !high.lt r else low.lt r && r.lt high
  let grid := value.scaleDown 10 step
  let near := grid.round
  let far := if near = grid.num / grid.den then near + 1 else near - 1
  if inside near then some (near, step)
  else if inside far then some (far, step)
  else none

/-- The first hit among the grids of `count`, `count + 1`, … digits, seventeen of which always
suffice. -/
def firstHit (mantissa : Nat) (power : Int) : (fuel count : Nat) → Nat × Int
  | 0, _ => (0, 0)
  | fuel + 1, count =>
    match candidate? mantissa power count with
    | some hit => hit
    | none => firstHit mantissa power fuel (count + 1)

/-- The shortest fraction that stands for the same double-precision number as
`digits · 10 ^ exponent`. -/
def shortest (negative : Bool) (digits : Nat) (exponent : Int) : Decimal :=
  let size : Int := Int.ofNat (digitCount digits) + exponent
  if digits = 0 || size < -400 then finite negative 0 0
  else if 400 < size then infinite negative
  else
    let (mantissa, power) := toBinary (Ratio.scaleDown ⟨digits, 1⟩ 10 (-exponent))
    if mantissa = 0 then finite negative 0 0
    else if 971 < power then infinite negative
    else
      let (n, e) := firstHit mantissa power 18 1
      finite negative n e

/-- Zero in either sign. -/
def isZero : Decimal → Bool
  | finite _ n _ => n = 0
  | infinite _ => false

/-- The digits without trailing zeros. -/
def significant (n : Nat) : List Char :=
  ((Nat.toDigits 10 n).reverse.dropWhile (· == '0')).reverse

/-- The sign of a negative number. -/
def signText (negative : Bool) : String := if negative then "-" else ""

/-- Decimal text: positional if the point falls between four places before the first digit and
sixteen after it, and otherwise one digit before the point and an exponent of two digits or
more. -/
def text : Decimal → String
  | infinite negative => signText negative ++ "inf"
  | finite negative 0 _ => signText negative ++ "0.0"
  | finite negative n e =>
    let ds := significant n
    let point : Int := Int.ofNat (digitCount n) + e
    let count : Int := Int.ofNat ds.length
    let body : List Char :=
      if -4 < point && point ≤ 0 then
        '0' :: '.' :: List.replicate (-point).toNat '0' ++ ds
      else if 0 < point && point ≤ 16 then
        if point < count then ds.take point.toNat ++ '.' :: ds.drop point.toNat
        else ds ++ List.replicate (point - count).toNat '0' ++ ['.', '0']
      else
        let power := point - 1
        let exponent := Nat.toDigits 10 power.natAbs
        let padded := if exponent.length < 2 then '0' :: exponent else exponent
        let fraction := if ds.length ≤ 1 then [] else '.' :: ds.drop 1
        ds.take 1 ++ fraction ++ 'e' :: (if power < 0 then '-' else '+') :: padded
    signText negative ++ String.ofList body

end Decimal

end PathExpansion.Text
