import FedTrack.Json.Double

namespace FedTrack.Shortest

/-- A decimal: its digits as one number and the place of the last of them. -/
structure Digits where
  digits : Nat
  /-- Power of ten of the last digit. -/
  exponent : Int
  deriving DecidableEq, Repr

/-- The interval of numbers that a positive double is nearest to, in quarters of the double's
last place. -/
structure Interval where
  low : Nat
  value : Nat
  high : Nat
  /-- Power of two of one quarter. -/
  unit : Int
  /-- Whether the ends belong to the interval. -/
  closed : Bool

/-- Half a last place reaches in both directions, below a power of two only half as far. -/
def interval (d : Double) : Interval :=
  let m := d.significand
  let boundary := m == 0x10000000000000 && d.exponent != Double.minExponent
  { low := if boundary then 4 * m - 1 else 4 * m - 2
    value := 4 * m
    high := 4 * m + 2
    unit := d.exponent - 2
    closed := m % 2 == 0 }

/-- Whether `c * 10 ^ k` reads back, for the interval given over a common denominator. -/
def Interval.contains (i : Interval) (num den c : Nat) : Bool :=
  let x := c * den
  let low := i.low * num
  let high := i.high * num
  if i.closed then low ≤ x && x ≤ high else low < x && x < high

/-- One power of ten: the neighbour of the value that reads back and is nearest, a tie to
the even digit. -/
def atExponent (i : Interval) (k : Int) : Option Nat :=
  -- `value * 2 ^ unit / 10 ^ k = value * num / den`
  let (n₂, d₂) := if i.unit < 0 then (1, Nat.pow 2 (-i.unit).toNat) else (Nat.pow 2 i.unit.toNat, 1)
  let (n₁, d₁) := if k < 0 then (Nat.pow 10 (-k).toNat, 1) else (1, Nat.pow 10 k.toNat)
  let num := n₂ * n₁
  let den := d₂ * d₁
  let x := i.value * num
  let below := x / den
  let above := below + 1
  let lowOk := i.contains num den below && below != 0
  let highOk := i.contains num den above
  if lowOk && highOk then
    let r := 2 * (x % den)
    if r < den then some below
    else if den < r then some above
    else if below % 2 = 0 then some below else some above
  else if lowOk then some below
  else if highOk then some above
  else none

def leading (num den : Nat) : Int :=
  let guess : Int := (((Nat.log2 num : Int) - (Nat.log2 den : Int)) * 30103) / 100000
  let atLeast (e : Int) : Bool :=
    if e < 0 then den ≤ num * Nat.pow 10 (-e).toNat else den * Nat.pow 10 e.toNat ≤ num
  if atLeast (guess + 1) then guess + 1
  else if atLeast guess then guess
  else guess - 1

/-- Tries the powers of ten from `top` downwards, `n` of them so far without success. -/
def search (i : Interval) (top : Int) : Nat → Nat → Option Digits
  | 0, _ => none
  | fuel + 1, n =>
    let k := top - n
    match atExponent i k with
    | some c => some ⟨c, k⟩
    | none => search i top fuel (n + 1)

def trim : Nat → Digits → Digits
  | 0, d => d
  | fuel + 1, d =>
    if d.digits % 10 = 0 && d.digits != 0 then trim fuel ⟨d.digits / 10, d.exponent + 1⟩ else d

/-- Fewest decimal digits that read back as the same double: the first number of digits
for which a neighbour of the value on the decimal grid lies in its rounding interval. -/
def digits (d : Double) : Digits :=
  let (num, den) := d.ratio
  let top := leading num den
  trim 400 ((search (interval d) top 18 0).getD ⟨0, 0⟩)

/-- Decimal exponents written positionally; others follow an `e`. -/
def positionalFrom : Int := -5
def positionalTo : Int := 15

def zeros (n : Nat) : List Char := List.replicate n '0'

/-- A sign and at least two digits. -/
def exponentText (e : Int) : List Char :=
  (if e < 0 then '-' else '+') ::
    (zeros (if e.natAbs < 10 then 1 else 0) ++ Nat.toDigits 10 e.natAbs)

/-- Text of a number: positional with at least one digit after the point, or one digit
before the point and an exponent. -/
def text (d : Double) : List Char :=
  let sign := if d.negative then ['-'] else []
  if d.isZero then sign ++ ['0', '.', '0']
  else
    let ⟨c, k⟩ := digits d
    let ds := Nat.toDigits 10 c
    let e : Int := k + ds.length - 1
    let body :=
      if positionalFrom ≤ e && e ≤ positionalTo then
        if 0 ≤ k then ds ++ zeros k.toNat ++ ['.', '0']
        else if 0 ≤ e then ds.take (e.toNat + 1) ++ ['.'] ++ ds.drop (e.toNat + 1)
        else ['0', '.'] ++ zeros ((-e).toNat - 1) ++ ds
      else
        let exponent := exponentText e
        match ds with
        | [] => []
        | [x] => [x, 'e'] ++ exponent
        | x :: rest => [x, '.'] ++ rest ++ ['e'] ++ exponent
    sign ++ body

end FedTrack.Shortest
