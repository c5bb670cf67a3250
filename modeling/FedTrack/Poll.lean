namespace FedTrack

/-- A moment, counted from the start of the clock: in milliseconds, unless a machine with a finer
clock is meant. -/
abbrev Time := Nat

abbrev Span := Nat

/-- What a polling loop runs on. Its clock cannot tell a moment after the last one. A timer goes off
when its moment has come, with a tick of its own. A count of 32 bits that overflows stops the program
if that is checked, and starts over if not. -/
structure Machine where
  last : Time
  tick : Span
  tick_pos : 0 < tick
  checked : Bool

namespace Machine

/-- When a timer set to some moment goes off. -/
def wakes (m : Machine) (t : Time) : Time := (t + (m.tick - 1)) / m.tick * m.tick

/-- Milliseconds, on a clock that counts seconds in 64 bits with a sign. -/
def simulated : Machine := ⟨0x8000000000000000 * 1000 - 1, 1, Nat.one_pos, true⟩

end Machine

/-- A polling loop between two attempts: the first attempt is made at once, each further one
an interval after the previous one ended, none after the deadline. -/
structure Poll where
  interval : Span
  timeout : Span
  deadline : Time
  attempts : UInt32
  deriving DecidableEq, Repr

inductive Attempt (α : Type)
  | done (value : α)
  | retry
  | failed (message : String)
  deriving DecidableEq

/-- Where the numbers of a program overflow. -/
inductive Overflow
  | moment
  | count
  deriving DecidableEq, Repr

def Overflow.message : Overflow → String
  | .moment => "overflow when adding duration to instant"
  | .count => "attempt to add with overflow"

inductive PollError
  | timedOut (attempts : UInt32) (timeout : Span)
  | failed (message : String)
  /-- The program stops. -/
  | overflow (o : Overflow)
  deriving DecidableEq, Repr

/-- The timeout is told in milliseconds. -/
def PollError.message : PollError → String
  | .timedOut attempts timeout =>
    "timed out after " ++ toString attempts ++ " attempts (" ++ toString timeout ++ "ms)"
  | .failed message => message
  | .overflow o => o.message

/-- When the attempts of a loop began, when it ended, and what came of it. -/
structure PollHistory (α : Type) where
  starts : List Time
  ended : Time
  result : Except PollError α

namespace Poll

def start (interval timeout : Span) (now : Time) : Poll := ⟨interval, timeout, now + timeout, 1⟩

/-- An attempt ended without result: when the next one is due, unless that is too late. -/
def retry (p : Poll) (now : Time) : Option (Poll × Time) :=
  let next := now + p.interval
  if p.deadline < next then none else some ({ p with attempts := p.attempts + 1 }, next)

def timeoutError (p : Poll) : PollError := .timedOut p.attempts p.timeout

/-- Runs the loop from the attempt that begins now, the one of this number; `earlier` are the
beginnings of those before it, the latest first. `step` gives the span that an attempt takes and what
it comes to. `none` when the fuel does not last. -/
def runFrom {α : Type} (m : Machine) (step : Nat → Span × Attempt α) :
    Nat → Nat → Poll → Time → List Time → Option (PollHistory α)
  | 0, _, _, _, _ => none
  | fuel + 1, number, p, now, earlier =>
    let (takes, attempt) := step number
    let starts := now :: earlier
    let ended := now + takes
    match attempt with
    | .done value => some ⟨starts.reverse, ended, .ok value⟩
    | .failed message => some ⟨starts.reverse, ended, .error (.failed message)⟩
    | .retry =>
      if m.last < ended + p.interval then
        some ⟨starts.reverse, ended, .error (.overflow .moment)⟩
      else
        match p.retry ended with
        | none => some ⟨starts.reverse, ended, .error p.timeoutError⟩
        | some (p, next) =>
          if m.checked && p.attempts == 0 then
            some ⟨starts.reverse, m.wakes next, .error (.overflow .count)⟩
          else runFrom m step fuel (number + 1) p (m.wakes next) starts

/-- Runs the loop from the attempt that begins now, unless its deadline cannot be told. -/
def runOn {α : Type} (m : Machine) (step : Nat → Span × Attempt α) (fuel : Nat) (p : Poll)
    (now : Time) (earlier : List Time) : Option (PollHistory α) :=
  if m.last < p.deadline then some ⟨earlier.reverse, now, .error (.overflow .moment)⟩
  else runFrom m step fuel (earlier.length + 1) p now earlier

def run {α : Type} (step : Nat → Span × Attempt α) : Nat → Poll → Time → List Time →
    Option (PollHistory α) := runOn .simulated step

end Poll

end FedTrack
