import FedTrack.Simulation.Limits
import FedTrack.Store.Flight

namespace FedTrack.Simulation

/-- A store together with the names given to its holds. -/
structure HeldStore where
  store : MemoryStore
  gates : Table String Nat

namespace HeldStore

def empty : HeldStore := ⟨.empty, .empty⟩

instance : Inhabited HeldStore := ⟨empty⟩

end HeldStore

/-- Interventions in a store beside the api calls. -/
inductive StoreCommand
  | failNext (operation : Operation) (fault : Fault) (times : Nat)
  | insert (object : Object)
  | remove (name : Name)
  | stored (name : Name)
  | count
  | hold (id : String) (operation : Operation) (name : Name)
  | release (id : String)
  | dropHold (id : String)

inductive StoreReply
  | done
  | object (object : Object)
  | removed (object : Option Object)
  | stored (object : Option Object)
  | count (n : Nat)
  | released (listening : Bool)
  | dropped (known : Bool)

namespace StoreCommand

/-- `waiting` tells at which gates calls wait. -/
def run (kind : Kind) (waiting : List Nat) (c : StoreCommand) (h : HeldStore) :
    HeldStore × StoreReply :=
  let keep (s : MemoryStore) : HeldStore := { h with store := s }
  match c with
  | .failNext op fault times =>
    (keep ((List.range times).foldl (fun s _ => s.failNext op fault) h.store), .done)
  | .insert o =>
    let (s, o) := h.store.insert kind o
    (keep s, .object o)
  | .remove name =>
    let (s, o) := h.store.remove kind name
    (keep s, .removed o)
  | .stored name => (h, .stored (h.store.find? kind name))
  | .count => (h, .count (h.store.count kind))
  | .hold id op name =>
    let (s, gate) := h.store.hold op name
    -- a hold given the same name again ends the earlier one
    let s := match h.gates.find? id with
      | some old => s.openGate old
      | none => s
    (⟨s, h.gates.insert id gate⟩, .done)
  | .release id =>
    match h.gates.find? id with
    | none => (h, .released false)
    | some gate =>
      (⟨h.store.openGate gate, h.gates.erase id⟩,
        .released (h.store.guards gate || waiting.contains gate))
  | .dropHold id =>
    match h.gates.find? id with
    | none => (h, .dropped false)
    | some gate => (⟨h.store.openGate gate, h.gates.erase id⟩, .dropped true)

end StoreCommand

structure CallTask where
  ticket : String
  kind : Kind
  call : Call
  flight : Option Flight

structure StoreWorld where
  held : HeldStore
  results : Table String Outcome

namespace StoreWorld

def empty : StoreWorld := ⟨.empty, .empty⟩

def ready (_ : Time) (w : StoreWorld) (t : CallTask) : Bool :=
  match t.flight with
  | none => true
  | some f => w.held.store.isOpen f.gate

def step (_ : Time) (w : StoreWorld) (t : CallTask) :
    StoreWorld × List CallTask × Option CallTask :=
  let finish (s : MemoryStore) (r : Outcome) : StoreWorld :=
    ⟨{ w.held with store := s }, w.results.insert t.ticket r⟩
  match t.flight with
  | some f =>
    let (s, r) := w.held.store.land f
    (finish s r, [], none)
  | none =>
    match w.held.store.launch t.kind t.call with
    | (s, .inl r) => (finish s r, [], none)
    | (s, .inr f) => ({ w with held := { w.held with store := s } }, [], some { t with flight := some f })

def rules : Rules StoreWorld CallTask := ⟨ready, fun _ => none, step⟩

end StoreWorld

inductive StoreStep
  | command (c : StoreCommand)
  | call (c : Call)
  | start (id : String) (kind : Kind) (c : Call)
  | join (id : String)
  | advance (ms : Span)

inductive StoreAnswer
  | reply (r : StoreReply)
  | outcome (o : Outcome)
  | pending
  | stuck

abbrev StoreRun := Schedule StoreWorld CallTask

namespace StoreRun

def inlineTicket : String := "inline"

def backgroundTicket (id : String) : String := "background " ++ id

def forget (s : StoreRun) (ticket : String) : StoreRun :=
  s.mapWorld fun w => { w with results := w.results.erase ticket }

def new : StoreRun := Schedule.new .empty

def waitingGates (s : StoreRun) : List Nat := s.tasks.filterMap fun w => w.task.flight.map (·.gate)

def perform (kind : Kind) (s : StoreRun) : StoreStep → StoreRun × StoreAnswer
  | .command c =>
    let (held, reply) := c.run kind s.waitingGates s.world.held
    (settle StoreWorld.rules (s.mapWorld fun w => { w with held := held }), .reply reply)
  | .call c =>
    let ticket := inlineTicket
    let s := await StoreWorld.rules (s.forget ticket) ⟨ticket, kind, c, none⟩ fun w => w.results.contains ticket
    match s.world.results.find? ticket with
    | some r => (s, .outcome r)
    | none => ({ s with tasks := s.tasks.filter (·.task.ticket != ticket) }, .stuck)
  | .start id k c =>
    let ticket := backgroundTicket id
    (settle StoreWorld.rules ((s.forget ticket).add ⟨ticket, k, c, none⟩), .reply .done)
  | .join id =>
    match s.world.results.find? (backgroundTicket id) with
    | some r => (s, .outcome r)
    | none => (s, .pending)
  | .advance ms => (pass StoreWorld.rules s ms, .reply .done)

end StoreRun

end FedTrack.Simulation
