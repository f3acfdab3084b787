/-!
# GraphDoc.Number.Binary64

Binary64 numbers, held exactly: a finite number is a sign, a mantissa and a
power of two, so equality and rounding are questions about integers.

* `Binary64.ofRatio` rounds a quotient of natural numbers to the nearest
  binary64 number, a tie going to the even mantissa.
* `Binary64.ofDecimal` reads `digits · 10 ^ power`, the value of a number
  literal; what is too large becomes an infinity and what is too small a zero.
* `Binary64.toRatio?` is the exact value again, as an integer over a natural
  number.
-/

namespace GraphDoc

/-- A binary64 number.  A finite one is `± mantissa · 2 ^ exponent`, with a
mantissa below `2 ^ 53` and an exponent of at least `-1074`. -/
inductive Binary64 where
  | finite (negative : Bool) (mantissa : Nat) (exponent : Int)
  | infinite (negative : Bool)
  | nan
  deriving DecidableEq, Repr

namespace Binary64

def twoPow (n : Nat) : Nat := Nat.pow 2 n

def tenPow (n : Nat) : Nat := Nat.pow 10 n

/-! ## rounding a quotient -/

/-- The nearest natural number to `n / d`, a tie going to the even one. -/
def roundHalfEven (n d : Nat) : Nat :=
  let q := n / d
  let r := n % d
  if 2 * r < d then q
  else if d < 2 * r then q + 1
  else if q % 2 = 0 then q else q + 1

/-- `num / den / 2 ^ e` as a numerator and a denominator. -/
def scaled (num den : Nat) (e : Int) : Nat × Nat :=
  if 0 ≤ e then (num, den * twoPow e.toNat) else (num * twoPow (-e).toNat, den)

/-- The exponent at which `num / den` has a mantissa of 53 bits, or the least
exponent where the number is too small for that. -/
def exponentFor (num den : Nat) : Int :=
  let estimate := max ((num.log2 : Int) - (den.log2 : Int) - 53) (-1074)
  let s := scaled num den estimate
  if s.1 / s.2 < twoPow 53 then estimate else estimate + 1

/-- The binary64 number nearest to `± num / den`. -/
def ofRatio (negative : Bool) (num den : Nat) : Binary64 :=
  if num = 0 then finite negative 0 (-1074)
  else
    let e := exponentFor num den
    let s := scaled num den e
    let m := roundHalfEven s.1 s.2
    let carried := if m = twoPow 53 then (twoPow 52, e + 1) else (m, e)
    if 971 < carried.2 then infinite negative else finite negative carried.1 carried.2

/-! ## reading a decimal -/

/-- The number of decimal digits of `n`, one for zero. -/
def digitCount (n : Nat) : Nat := (Nat.toDigits 10 n).length

/-- The binary64 number nearest to `± digits · 10 ^ power`.  A number of at
least `10 ^ 309` is beyond the largest finite one, and a number below
`10 ^ (-325)` is under half of the least positive one. -/
def ofDecimal (negative : Bool) (digits : Nat) (power : Int) : Binary64 :=
  let magnitude := (digitCount digits : Int) + power
  if digits = 0 ∨ magnitude < -325 then finite negative 0 (-1074)
  else if 310 < magnitude then infinite negative
  else if 0 ≤ power then ofRatio negative (digits * tenPow power.toNat) 1
  else ofRatio negative digits (tenPow (-power).toNat)

/-! ## the exact value -/

/-- The exact value of a finite number, an integer over a natural number. -/
def toRatio? : Binary64 → Option (Int × Nat)
  | finite negative m e =>
    let sign : Int := if negative then -1 else 1
    if 0 ≤ e then some (sign * (m * twoPow e.toNat : Nat), 1)
    else some (sign * (m : Int), twoPow (-e).toNat)
  | _ => none

/-- Zero of either sign. -/
def isZero : Binary64 → Bool
  | finite _ m _ => m == 0
  | _ => false

end Binary64

end GraphDoc
