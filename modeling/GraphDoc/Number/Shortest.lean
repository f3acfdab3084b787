import GraphDoc.Number.Binary64
import GraphDoc.Text.Basic

/-!
# GraphDoc.Number.Shortest

The shortest decimal text that reads back as a given binary64 number.

`shortest` tries one digit, two digits, and so on up to seventeen, and takes
the first decimal grid that has a point among the reals rounding to the
number; of two such points it takes the nearer, and a tie goes to the even
digit.  `Binary64.text` writes the digits: positionally for magnitudes from
`10 ^ (-4)` up to `10 ^ 16`, with an exponent beyond.
-/

namespace GraphDoc.Binary64

/-! ## the reals that round to a number -/

/-- The reals that round to `mantissa · 2 ^ exponent`, in quarters of the last
binary place: from `low` to `high`, with both ends when `closed`. -/
structure Neighbourhood where
  low : Nat
  value : Nat
  high : Nat
  closed : Bool

/-- Half a place on either side, and a quarter below a power of two, where the
next smaller number is nearer. -/
def neighbourhood (m : Nat) (e : Int) : Neighbourhood where
  low := if m = twoPow 52 ∧ -1074 < e then 4 * m - 1 else 4 * m - 2
  value := 4 * m
  high := 4 * m + 2
  closed := m % 2 == 0

/-- A decimal number `digits · 10 ^ power`. -/
structure Decimal where
  digits : Nat
  power : Int
  deriving DecidableEq, Repr

/-- The ratio of `digits · 10 ^ power` to `2 ^ unit`. -/
def Decimal.over (x : Decimal) (unit : Int) : Nat × Nat :=
  let top := if 0 ≤ x.power then x.digits * tenPow x.power.toNat else x.digits
  let bottom := if 0 ≤ x.power then 1 else tenPow (-x.power).toNat
  if 0 ≤ unit then (top, bottom * twoPow unit.toNat) else (top * twoPow (-unit).toNat, bottom)

/-- Whether a decimal rounds to the number at the centre of `n`, whose places
are counted in `2 ^ unit`. -/
def Neighbourhood.contains (n : Neighbourhood) (unit : Int) (x : Decimal) : Bool :=
  let r := x.over unit
  if n.closed then n.low * r.2 ≤ r.1 && r.1 ≤ n.high * r.2
  else n.low * r.2 < r.1 && r.1 < n.high * r.2

/-- The distance of a decimal from the centre of `n`, over the denominator
that all decimals of one power share. -/
def Neighbourhood.distance (n : Neighbourhood) (unit : Int) (x : Decimal) : Nat :=
  let r := x.over unit
  max (n.value * r.2) r.1 - min (n.value * r.2) r.1

/-! ## the decimal grids -/

/-- The number of digits before the decimal point of `num / den`, negative for
zeros behind it: the least `k` with `num / den < 10 ^ k`. -/
def decimalPlace (num den : Nat) : Int :=
  let guess := ((num.log2 : Int) - (den.log2 : Int) - 1) * 30103 / 100000
  let below (k : Int) : Bool :=
    if 0 ≤ k then num < den * tenPow k.toNat else num * tenPow (-k).toNat < den
  (((List.range 4).map fun i : Nat => guess - 1 + (i : Int)).find? below).getD (guess + 3)

/-- The two neighbours of `num / den` on the grid of steps `10 ^ power`. -/
def gridNeighbours (num den : Nat) (power : Int) : Decimal × Decimal :=
  let floor :=
    if 0 ≤ power then num / (den * tenPow power.toNat) else num * tenPow (-power).toNat / den
  (⟨floor, power⟩, ⟨floor + 1, power⟩)

/-- The point of a grid that stands for the number, if the grid has one. -/
def pick (n : Neighbourhood) (unit : Int) (below above : Decimal) : Option Decimal :=
  match n.contains unit below, n.contains unit above with
  | true, true =>
    let d := n.distance unit below
    let d' := n.distance unit above
    if d < d' then some below
    else if d' < d then some above
    else if below.digits % 2 = 0 then some below else some above
  | true, false => some below
  | false, true => some above
  | false, false => none

/-- The shortest decimal that rounds to `m · 2 ^ e`, for a positive `m`. -/
def shortest (m : Nat) (e : Int) : Decimal :=
  let n := neighbourhood m e
  let unit := e - 2
  let s := scaled m 1 (-e)
  let place := decimalPlace s.1 s.2
  let onGrid (digits : Nat) : Option Decimal :=
    let g := gridNeighbours s.1 s.2 (place - (digits + 1 : Nat))
    pick n unit g.1 g.2
  ((List.range 17).findSome? onGrid).getD ⟨m, e⟩

/-! ## the text -/

/-- The digits without trailing zeros, and the place of the decimal point: the
value is `0.digits · 10 ^ place`. -/
def Decimal.normal (x : Decimal) : List Char × Int :=
  let digits := Nat.toDigits 10 x.digits
  let kept := (digits.reverse.dropWhile (· == '0')).reverse
  (kept, x.power + (digits.length : Int))

def exponentText (e : Int) : List Char :=
  let digits := Nat.toDigits 10 e.natAbs
  (if e < 0 then '-' else '+') :: (if digits.length < 2 then '0' :: digits else digits)

/-- Digits with the decimal point at `place`; the text always shows a point or
an exponent, so that it does not read as an integer. -/
def placed (digits : List Char) (place : Int) : List Char :=
  if place ≤ -4 ∨ 16 < place then
    let tail := 'e' :: exponentText (place - 1)
    match digits with
    | [d] => d :: tail
    | d :: ds => d :: '.' :: ds ++ tail
    | [] => tail
  else if place ≤ 0 then
    '0' :: '.' :: List.replicate (-place).toNat '0' ++ digits
  else if digits.length ≤ place.toNat then
    digits ++ List.replicate (place.toNat - digits.length) '0' ++ ['.', '0']
  else
    digits.take place.toNat ++ '.' :: digits.drop place.toNat

/-- The shortest text that reads back as the number; `huge` is the word for an
infinity and `none` the word for nan. -/
def text (huge undefined : Text) : Binary64 → Text
  | finite negative m e =>
    let body := if m = 0 then "0.0".toList else
      let d := (shortest m e).normal
      placed d.1 d.2
    Text.ofChars (if negative then '-' :: body else body)
  | infinite negative => if negative then "-" ++ huge else huge
  | nan => undefined

end GraphDoc.Binary64
