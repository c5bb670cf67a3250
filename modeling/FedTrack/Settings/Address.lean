namespace FedTrack

/-- An address to listen at: a host of four bytes or of eight groups of 16 bits with a zone,
and the number behind its colon. -/
inductive SocketAddress
  | v4 (octets : List Nat) (portNumber : Nat)
  | v6 (groups : List Nat) (zone : Nat) (portNumber : Nat)
  deriving DecidableEq, Repr

namespace SocketAddress

/-! Reading -/

def digitValue? (radix : Nat) (c : Char) : Option Nat :=
  let v :=
    if '0' ≤ c && c ≤ '9' then c.toNat - 48
    else if 'a' ≤ c && c ≤ 'z' then c.toNat - 87
    else if 'A' ≤ c && c ≤ 'Z' then c.toNat - 55
    else radix
  if v < radix then some v else none

/-- The digits in front: how many, their value and the rest. -/
def digits (radix : Nat) : List Char → Nat → Nat → Nat × Nat × List Char
  | [], count, v => (count, v, [])
  | c :: cs, count, v =>
    match digitValue? radix c with
    | some d => digits radix cs (count + 1) (v * radix + d)
    | none => (count, v, c :: cs)

def decimal (greatest : Nat) (cs : List Char) : Option (Nat × List Char) :=
  match digits 10 cs 0 0 with
  | (count, v, rest) => if 0 < count && v ≤ greatest then some (v, rest) else none

def octet (cs : List Char) : Option (Nat × List Char) :=
  match digits 10 cs 0 0 with
  | (count, v, rest) =>
    if 0 < count && count ≤ 3 && v ≤ 255 && (count == 1 || cs.head? != some '0') then some (v, rest)
    else none

def group (cs : List Char) : Option (Nat × List Char) :=
  match digits 16 cs 0 0 with
  | (count, v, rest) => if 0 < count && count ≤ 4 then some (v, rest) else none

def char? (c : Char) : List Char → Option (List Char)
  | [] => none
  | d :: rest => if c = d then some rest else none

def octets (cs : List Char) : Option (List Nat × List Char) := do
  let (a, cs) ← octet cs
  let (b, cs) ← octet (← char? '.' cs)
  let (c, cs) ← octet (← char? '.' cs)
  let (d, cs) ← octet (← char? '.' cs)
  some ([a, b, c, d], cs)

/-- What separates the groups; nothing stands before the first one. -/
def separator (first : Bool) (cs : List Char) : Option (List Char) :=
  if first then some cs else char? ':' cs

/-- Up to `room` groups; four bytes may stand for the last two. Tells whether they did. -/
def groups : Nat → Bool → List Char → List Nat × Bool × List Char
  | 0, _, cs => ([], false, cs)
  | room + 1, first, cs =>
    let bytes := if room = 0 then none else (separator first cs).bind octets
    match bytes with
    | some ([a, b, c, d], rest) => ([a * 256 + b, c * 256 + d], true, rest)
    | _ =>
      match (separator first cs).bind group with
      | none => ([], false, cs)
      | some (g, rest) =>
        let (more, bytes, rest) := groups room false rest
        (g :: more, bytes, rest)

def host6 (cs : List Char) : Option (List Nat × List Char) :=
  let (head, bytes, rest) := groups 8 true cs
  if head.length = 8 then some (head, rest)
  else if bytes then none
  else
    match rest with
    | ':' :: ':' :: rest =>
      let (tail, _, rest) := groups (7 - head.length) true rest
      some (head ++ List.replicate (8 - head.length - tail.length) 0 ++ tail, rest)
    | _ => none

def zone (cs : List Char) : Option (Nat × List Char) :=
  match cs with
  | '%' :: rest => decimal 0xffffffff rest
  | _ => some (0, cs)

def portNumber (cs : List Char) : Option Nat := do
  match ← decimal 0xffff (← char? ':' cs) with
  | (p, []) => some p
  | _ => none

/-- Reads `1.2.3.4:80` or `[::1]:80`. -/
def ofChars? (cs : List Char) : Option SocketAddress :=
  match cs with
  | '[' :: rest => do
    let (groups, rest) ← host6 rest
    let (zone, rest) ← zone rest
    some (.v6 groups zone (← portNumber (← char? ']' rest)))
  | _ => do
    let (octets, rest) ← octets cs
    some (.v4 octets (← portNumber rest))

def ofText? (s : String) : Option SocketAddress := ofChars? s.toList

/-! Writing -/

def hexText (n : Nat) : String := String.ofList (Nat.toDigits 16 n)

def joinWith (mark : String) (parts : List String) : String := String.intercalate mark parts

/-- Start and length of the first of the longest runs of zeros. `start` is where the current
run began and `len` its length. -/
def longestZeros : List Nat → Nat → Nat × Nat → Nat × Nat → Nat × Nat
  | [], _, _, best => best
  | g :: gs, i, (start, len), best =>
    if g = 0 then
      let run := if len = 0 then (i, 1) else (start, len + 1)
      longestZeros gs (i + 1) run (if best.2 < run.2 then run else best)
    else longestZeros gs (i + 1) (0, 0) best

def octetsText (l : List Nat) : String := joinWith "." (l.map toString)

def groupsText (l : List Nat) : String := joinWith ":" (l.map hexText)

/-- The groups with the first longest run of zeros left out, if it is longer than one. A host
of four bytes within the wider space shows them as such. -/
def host6Text (l : List Nat) : String :=
  match l with
  | [0, 0, 0, 0, 0, 0xffff, a, b] =>
    "::ffff:" ++ octetsText [a / 256, a % 256, b / 256, b % 256]
  | _ =>
    let (start, len) := longestZeros l 0 (0, 0) (0, 0)
    if 1 < len then groupsText (l.take start) ++ "::" ++ groupsText (l.drop (start + len))
    else groupsText l

def text : SocketAddress → String
  | .v4 octets portNumber => octetsText octets ++ ":" ++ toString portNumber
  | .v6 groups zone portNumber =>
    "[" ++ host6Text groups ++ (if zone = 0 then "" else "%" ++ toString zone) ++ "]:" ++
      toString portNumber

end SocketAddress

end FedTrack
