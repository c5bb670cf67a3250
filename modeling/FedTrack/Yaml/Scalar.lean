import FedTrack.Json.Field

namespace FedTrack.Yaml

/-! The values of scalars that are written without quotes. -/

def hexDigit? (c : Char) : Option Nat :=
  if '0' ≤ c && c ≤ '9' then some (c.toNat - 48)
  else if 'a' ≤ c && c ≤ 'f' then some (c.toNat - 87)
  else if 'A' ≤ c && c ≤ 'F' then some (c.toNat - 55)
  else none

/-- A number of at least one digit below `radix`. -/
def number? (radix : Nat) (cs : List Char) : Option Nat :=
  match cs with
  | [] => none
  | _ => cs.foldlM (fun n c => (hexDigit? c).bind fun d => if d < radix then some (n * radix + d) else none) 0

/-- The digits after a sign, with the mark of their radix. -/
def magnitude? : List Char → Option Nat
  | '0' :: 'x' :: cs => number? 16 cs
  | '0' :: 'o' :: cs => number? 8 cs
  | '0' :: 'b' :: cs => number? 2 cs
  | cs => number? 10 cs

/-- A sign in front, plus or minus, and the rest. -/
def sign : List Char → Bool × List Char
  | '+' :: cs => (false, cs)
  | '-' :: cs => (true, cs)
  | cs => (false, cs)

/-- Digits that begin with a zero are a text. -/
def hasLeadingZero (cs : List Char) : Bool :=
  match (sign cs).2 with
  | '0' :: rest => !rest.isEmpty && rest.all Char.isDigit
  | _ => false

def int? (cs : List Char) : Option Int :=
  if hasLeadingZero cs then none
  else
    let (negative, digits) := sign cs
    (magnitude? digits).map fun n => if negative then -(n : Int) else n

/-- Digits before and after the point, and the exponent. -/
structure Decimal where
  digits : List Char
  places : Nat
  exponent : Int

def exponent? : List Char → Option Int
  | [] => some 0
  | c :: cs =>
    if c = 'e' || c = 'E' then
      let (negative, digits) := sign cs
      (number? 10 digits).map fun n => if negative then -(n : Int) else n
    else none

/-- A number with point or exponent, after its sign. -/
def decimal? (cs : List Char) : Option Decimal :=
  let whole := cs.takeWhile Char.isDigit
  let (places, rest) := match cs.dropWhile Char.isDigit with
    | '.' :: r => (r.takeWhile Char.isDigit, r.dropWhile Char.isDigit)
    | r => ([], r)
  if whole.isEmpty && places.isEmpty then none
  else (exponent? rest).map fun e => ⟨whole ++ places, places.length, e⟩

/-- Exponents beyond this are far outside of the numbers there are. -/
def clampExponent (e : Int) : Int := max (-100000) (min e 100000)

/-- A finite number. -/
def double? (cs : List Char) : Option Double :=
  if hasLeadingZero cs then none
  else
    let (negative, rest) := sign cs
    (decimal? rest).bind fun d =>
      let n := (number? 10 d.digits).getD 0
      let e := clampExponent (d.exponent - d.places)
      if 0 ≤ e then
        if n = 0 then some (.zero negative)
        else if 400 < e then none
        else Double.ofRatio negative (n * Nat.pow 10 e.toNat) 1
      else if e < -2000 then some (.zero negative)
      else Double.ofRatio negative n (Nat.pow 10 e.natAbs)

/-- Words for what is no finite number; the settings have no use for their values. -/
def isNonFinite (s : String) : Bool :=
  [".inf", ".Inf", ".INF", "+.inf", "+.Inf", "+.INF", "-.inf", "-.Inf", "-.INF", ".nan", ".NaN",
    ".NAN"].contains s

/-- A whole number of 64 bits stays one, all others are doubles. -/
def wholeJson (i : Int) : Json :=
  if Json.minInt64 ≤ i && i ≤ Json.maxNat64 then .number (.whole i)
  else .number (.double ((Double.ofRatio (i < 0) i.natAbs 1).getD (.zero false)))

/-- The value of a plain scalar. -/
def resolve (s : String) : Json :=
  if ["", "~", "null", "Null", "NULL"].contains s then .null
  else if ["true", "True", "TRUE"].contains s then .bool true
  else if ["false", "False", "FALSE"].contains s then .bool false
  else
    match int? s.toList with
    | some i => wholeJson i
    | none =>
      match double? s.toList with
      | some d => .number (.double d)
      | none => if isNonFinite s then .number (.double (.zero false)) else .string s

end FedTrack.Yaml
