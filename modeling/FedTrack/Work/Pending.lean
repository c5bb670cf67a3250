import FedTrack.Table.Basic
import FedTrack.Poll

namespace FedTrack

/-- Keys with the times at which they are due: by key, and in the order of their times. -/
structure Pending (K : Type) [Key K] where
  deadlines : Table K Time
  ordered : Table (Time × K) Unit

namespace Pending

variable {K : Type} [Key K]

def empty : Pending K := ⟨.empty, .empty⟩

instance : Inhabited (Pending K) := ⟨empty⟩

/-- A pending key keeps the earlier of its two times. Tells whether the time was set or
moved forward. -/
def schedule (p : Pending K) (key : K) (at_ : Time) : Pending K × Bool :=
  match p.deadlines.find? key with
  | some old =>
    if old ≤ at_ then (p, false)
    else (⟨p.deadlines.insert key at_, (p.ordered.erase (old, key)).insert (at_, key) ()⟩, true)
  | none => (⟨p.deadlines.insert key at_, p.ordered.insert (at_, key) ()⟩, true)

def first? (p : Pending K) : Option (Time × K) := p.ordered.keys.head?

def nextDeadline (p : Pending K) : Option Time := p.first?.map Prod.fst

def drop (p : Pending K) (e : Time × K) : Pending K := ⟨p.deadlines.erase e.2, p.ordered.erase e⟩

def popUpTo (now : Time) : Nat → Pending K → Pending K × List K
  | 0, p => (p, [])
  | fuel + 1, p =>
    match p.first? with
    | some e =>
      if e.1 ≤ now then
        let (p, rest) := popUpTo now fuel (p.drop e)
        (p, e.2 :: rest)
      else (p, [])
    | none => (p, [])

/-- Takes all entries that are due, in the order of time and key. -/
def popDue (p : Pending K) (now : Time) : Pending K × List K := popUpTo now p.ordered.size p

def size (p : Pending K) : Nat := p.deadlines.size

end Pending

end FedTrack
