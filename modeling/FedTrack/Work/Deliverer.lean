import FedTrack.Work.Pending

namespace FedTrack

inductive DeliveryLoop (K : Type)
  | arming
  /-- Waits for a deadline, or for a notice that an earlier one was set. -/
  | waiting (next : Option Time)
  /-- Hands over keys that were due together. -/
  | handing (keys : List K)

/-- Hands keys over once their time has come. -/
structure Deliverer (K : Type) [Key K] where
  pending : Pending K
  /-- A deadline was set that the loop has not looked at. -/
  notified : Bool

namespace Deliverer

variable {K : Type} [Key K]

def empty : Deliverer K := ⟨.empty, false⟩

instance : Inhabited (Deliverer K) := ⟨empty⟩

def deliverAt (d : Deliverer K) (key : K) (time : Time) : Deliverer K :=
  let (p, changed) := d.pending.schedule key time
  ⟨p, d.notified || changed⟩

def deliverAfter (d : Deliverer K) (now : Time) (key : K) (delay : Span) : Deliverer K :=
  d.deliverAt key (now + delay)

def deliverNow (d : Deliverer K) (now : Time) (key : K) : Deliverer K := d.deliverAt key now

end Deliverer

namespace DeliveryLoop

variable {K : Type} [Key K]

def ready (l : DeliveryLoop K) (d : Deliverer K) (now : Time) : Bool :=
  match l with
  | .arming | .handing _ => true
  | .waiting next => d.notified || next.any (· ≤ now)

def alarm : DeliveryLoop K → Option Time
  | .waiting next => next
  | _ => none

/-- One step of the loop; it may hand over a key. -/
def step (l : DeliveryLoop K) (d : Deliverer K) (now : Time) :
    DeliveryLoop K × Deliverer K × Option K :=
  match l with
  | .arming => (.waiting d.pending.nextDeadline, d, none)
  | .waiting next =>
    if d.notified then (.arming, { d with notified := false }, none)
    else if next.any (· ≤ now) then
      let (p, due) := d.pending.popDue now
      (.handing due, { d with pending := p }, none)
    else (.waiting next, d, none)
  | .handing [] => (.arming, d, none)
  | .handing (key :: rest) => (.handing rest, d, some key)

end DeliveryLoop

end FedTrack
