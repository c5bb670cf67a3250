namespace FedTrack

/-- A finite binary64 number, `± significand * 2 ^ exponent`, in its one stored form:
normal numbers have a significand of 53 bits, smaller ones the least exponent. -/
structure Double where
  negative : Bool
  significand : Nat
  exponent : Int
  deriving DecidableEq, Repr

namespace Double

def minExponent : Int := -1074
def maxExponent : Int := 971

def zero (negative : Bool) : Double := ⟨negative, 0, minExponent⟩

def isZero (d : Double) : Bool := d.significand == 0

/-- Numeric equality: both zeros are equal, all else is equal when stored alike. -/
def agrees (a b : Double) : Bool := a == b || (a.isZero && b.isZero)

/-- Quotient rounded to the nearest integer, a tie to the even one. -/
def roundQuotient (num den : Nat) : Nat :=
  let q := num / den
  let r := 2 * (num % den)
  if r < den then q
  else if den < r then q + 1
  else if q % 2 = 0 then q else q + 1

def ratio (d : Double) : Nat × Nat :=
  if d.exponent < 0 then (d.significand, Nat.pow 2 (-d.exponent).toNat)
  else (d.significand * Nat.pow 2 d.exponent.toNat, 1)

/-- `num / den` measured in units of `2 ^ e`, as a ratio. -/
def scaled (num den : Nat) (e : Int) : Nat × Nat :=
  if e < 0 then (num * Nat.pow 2 (-e).toNat, den) else (num, den * Nat.pow 2 e.toNat)

/-- The double nearest to `num / den`, ties to even; `none` beyond the largest one. -/
def ofRatio (negative : Bool) (num den : Nat) : Option Double :=
  if num = 0 then some (zero negative)
  else
    let guess : Int := (Nat.log2 num : Int) - (Nat.log2 den : Int) - 52
    let short := scaled num den guess
    let fitted := if short.1 < short.2 * 0x10000000000000 then guess - 1 else guess
    let e := max fitted minExponent
    let s := scaled num den e
    let m := roundQuotient s.1 s.2
    let (m, e) := if m = 0x20000000000000 then (0x10000000000000, e + 1) else (m, e)
    if maxExponent < e then none else some ⟨negative, m, e⟩

def ofNat (n : Nat) : Option Double := ofRatio false n 1

def mul (a b : Double) : Option Double :=
  let (an, ad) := a.ratio
  let (bn, bd) := b.ratio
  ofRatio (a.negative != b.negative) (an * bn) (ad * bd)

def div (a b : Double) : Option Double :=
  let (an, ad) := a.ratio
  let (bn, bd) := b.ratio
  ofRatio (a.negative != b.negative) (an * bd) (ad * bn)

def neg (d : Double) : Double := { d with negative := !d.negative }

def tenPow (k : Nat) : Double := (ofNat (Nat.pow 10 k)).getD (zero false)

/-- A decimal `significand * 10 ^ exponent` by one scaling step with a power of ten, or by
several steps of `10 ^ 308` when the exponent is further below. Each step rounds. -/
def scaleDecimal : Nat → Double → Int → Option Double
  | 0, _, _ => none
  | fuel + 1, f, exponent =>
    if exponent.natAbs ≤ 308 then
      if 0 ≤ exponent then f.mul (tenPow exponent.toNat)
      else f.div (tenPow exponent.natAbs)
    else if f.isZero then some f
    else if 0 ≤ exponent then none
    else
      match f.div (tenPow 308) with
      | none => none
      | some g => scaleDecimal fuel g (exponent + 308)

/-- The number written as `significand` and a power of ten; `none` when it is too large. -/
def ofDecimal (negative : Bool) (significand : Nat) (exponent : Int) : Option Double :=
  match ofNat significand with
  | none => none
  | some f =>
    (scaleDecimal 4 f exponent).map fun d => if negative then d.neg else d

end Double

end FedTrack
