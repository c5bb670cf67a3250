import FedTrack.Text.CaseTable

namespace FedTrack.Case

def inRanges (ranges : List (Nat × Nat)) (c : Char) : Bool :=
  ranges.any fun r => r.1 ≤ c.toNat && c.toNat ≤ r.2

def isCased (c : Char) : Bool := inRanges casedRanges c

def isIgnorable (c : Char) : Bool := inRanges ignorableRanges c

def Run.covers (r : Run) (n : Nat) : Bool :=
  r.first ≤ n && n ≤ r.last && (n - r.first) % r.step == 0

/-- The lower-case form of one letter. The dotted capital I keeps its dot as a mark. -/
def lowerChar (c : Char) : List Char :=
  if c = 'İ' then ['i', '\u0307']
  else if c.toNat < 128 then
    if 'A' ≤ c && c ≤ 'Z' then [Char.ofNat (c.toNat + 32)] else [c]
  else
    match lowerRuns.find? (·.covers c.toNat) with
    | some r => [Char.ofNat (c.toNat + r.shift).toNat]
    | none => [c]

/-- Whether the nearest character that counts is a letter. -/
def facesLetter (cs : List Char) : Bool :=
  match cs.dropWhile isIgnorable with
  | c :: _ => isCased c
  | [] => false

/-- A capital sigma that ends a word is lowered to its final form. `before` holds the
characters on the left, nearest first. -/
def lowerFrom (before : List Char) : List Char → List Char
  | [] => []
  | c :: rest =>
    let low :=
      if c = 'Σ' then
        if facesLetter before && !facesLetter rest then ['ς'] else ['σ']
      else lowerChar c
    low ++ lowerFrom (c :: before) rest

end FedTrack.Case

namespace FedTrack

def lowerCase (s : String) : String := String.ofList (Case.lowerFrom [] s.toList)

end FedTrack
