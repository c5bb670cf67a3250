namespace FedTrack

/-- A moment of the calendar in universal time. -/
structure Timestamp where
  year : Nat
  month : Nat
  day : Nat
  hour : Nat
  minute : Nat
  second : Nat
  nanosecond : Nat
  deriving DecidableEq, Repr

namespace Timestamp

def isLeap (year : Nat) : Bool := year % 4 == 0 && (year % 100 != 0 || year % 400 == 0)

def daysIn (year month : Nat) : Nat :=
  if month = 2 then (if isLeap year then 29 else 28)
  else if month = 4 || month = 6 || month = 9 || month = 11 then 30
  else 31

/-- A date of the calendar and a time of the day. -/
def InCalendar (t : Timestamp) : Prop :=
  t.year ≤ 9999 ∧ 1 ≤ t.month ∧ t.month ≤ 12 ∧ 1 ≤ t.day ∧ t.day ≤ daysIn t.year t.month ∧
    t.hour ≤ 23 ∧ t.minute ≤ 59 ∧ t.second ≤ 59 ∧ t.nanosecond < 1000000000

instance (t : Timestamp) : Decidable t.InCalendar := by
  unfold InCalendar
  infer_instance

/-- The second that a moment lies in. -/
def whole (t : Timestamp) : Timestamp := { t with nanosecond := 0 }

/-- A moment of the calendar in whole seconds. -/
def Valid (t : Timestamp) : Prop := t.InCalendar ∧ t.nanosecond = 0

def digit (n : Nat) : Char := Char.ofNat (48 + n % 10)

def two (n : Nat) : List Char := [digit (n / 10), digit n]

def four (n : Nat) : List Char := [digit (n / 1000), digit (n / 100), digit (n / 10), digit n]

/-- `2024-05-06T07:08:09Z`. A fraction of a second is not written. -/
def chars (t : Timestamp) : List Char :=
  four t.year ++ '-' :: (two t.month ++ '-' :: (two t.day ++ 'T' :: (two t.hour ++ ':' ::
    (two t.minute ++ ':' :: (two t.second ++ ['Z'])))))

def text (t : Timestamp) : String := String.ofList t.chars

def digit? (c : Char) : Option Nat := if c.isDigit then some (c.toNat - 48) else none

def two? (a b : Char) : Option Nat := do
  let a ← digit? a
  let b ← digit? b
  some (10 * a + b)

def four? (a b c d : Char) : Option Nat := do
  let x ← two? a b
  let y ← two? c d
  some (100 * x + y)

/-- A fraction of a second in nanoseconds, of at most nine digits, and what follows it. -/
def fraction? : List Char → Option (Nat × List Char)
  | '.' :: rest =>
    let digits := rest.takeWhile Char.isDigit
    if 1 ≤ digits.length ∧ digits.length ≤ 9 then
      let value := digits.foldl (fun n c => 10 * n + (c.toNat - 48)) 0
      some (value * Nat.pow 10 (9 - digits.length), rest.dropWhile Char.isDigit)
    else none
  | rest => some (0, rest)

/-- By how many minutes a clock is ahead of universal time. -/
def offset? : List Char → Option Int
  | ['Z'] | ['z'] => some 0
  | [sign, h₁, h₂, ':', m₁, m₂] => do
    let hours ← two? h₁ h₂
    let minutes ← two? m₁ m₂
    if hours ≤ 23 ∧ minutes ≤ 59 then
      if sign = '+' then some (60 * hours + minutes)
      else if sign = '-' then some (-(60 * hours + minutes))
      else none
    else none
  | _ => none

def dayBefore? (t : Timestamp) : Option Timestamp :=
  if 1 < t.day then some { t with day := t.day - 1 }
  else if 1 < t.month then
    some { t with month := t.month - 1, day := daysIn t.year (t.month - 1) }
  else if 0 < t.year then some { t with year := t.year - 1, month := 12, day := 31 }
  else none

def dayAfter? (t : Timestamp) : Option Timestamp :=
  if t.day < daysIn t.year t.month then some { t with day := t.day + 1 }
  else if t.month < 12 then some { t with month := t.month + 1, day := 1 }
  else if t.year < 9999 then some { t with year := t.year + 1, month := 1, day := 1 }
  else none

/-- The universal time when a clock shows this time that is so many minutes ahead of it. -/
def behind? (t : Timestamp) (offset : Int) : Option Timestamp :=
  let minutes : Int := 60 * t.hour + t.minute - offset
  let inDay (t : Timestamp) (minutes : Int) : Timestamp :=
    { t with hour := (minutes / 60).toNat, minute := (minutes % 60).toNat }
  if minutes < 0 then t.dayBefore?.map (inDay · (minutes + 1440))
  else if minutes < 1440 then some (inDay t minutes)
  else t.dayAfter?.map (inDay · (minutes - 1440))

/-- A date and a time as RFC 3339 has them, with or without a fraction, in any time zone. -/
def ofChars? : List Char → Option Timestamp
  | y₁ :: y₂ :: y₃ :: y₄ :: '-' :: m₁ :: m₂ :: '-' :: d₁ :: d₂ :: separator ::
      h₁ :: h₂ :: ':' :: i₁ :: i₂ :: ':' :: s₁ :: s₂ :: rest => do
    let year ← four? y₁ y₂ y₃ y₄
    let month ← two? m₁ m₂
    let day ← two? d₁ d₂
    let hour ← two? h₁ h₂
    let minute ← two? i₁ i₂
    let second ← two? s₁ s₂
    let (nanosecond, zone) ← fraction? rest
    let offset ← offset? zone
    let t : Timestamp := ⟨year, month, day, hour, minute, second, nanosecond⟩
    if (separator = 'T' ∨ separator = 't' ∨ separator = ' ') ∧ t.InCalendar then t.behind? offset
    else none
  | _ => none

def ofText? (s : String) : Option Timestamp := ofChars? s.toList

end Timestamp

end FedTrack
