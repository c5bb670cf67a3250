import FedTrack.Simulation.StoreRun
import FedTrack.Version.Update
import FedTrack.Version.Sync
import FedTrack.Version.Tracker

namespace FedTrack.Simulation

inductive VersionResult
  | updated (result : Except VersionError Unit)
  | synced (hasSynced : Bool)

structure VersionWorld where
  held : HeldStore
  managers : Table Nat VersionManager
  current : Nat
  metrics : Metrics
  results : Table String VersionResult
  cancelledSyncs : List String
  federated : ObjectCache
  tracker : Option Tracker
  trackingCancelled : Bool
  /-- Names that a tracker passed on before it ended. -/
  leftover : List Name

namespace VersionWorld

def new (m : VersionManager) : VersionWorld :=
  { held := .empty
    managers := Table.empty.insert 0 m
    current := 0
    metrics := .empty
    results := .empty
    cancelledSyncs := []
    federated := ObjectCache.empty.setSynced true
    tracker := none
    trackingCancelled := false
    leftover := [] }

def endTracking (w : VersionWorld) : VersionWorld :=
  { w with
    tracker := none
    leftover := w.leftover ++ (w.tracker.bind (·.downstream)).getD [] }

def manager (w : VersionWorld) (i : Nat) : VersionManager :=
  (w.managers.find? i).getD (.new true "" "" none)

def setManager (w : VersionWorld) (i : Nat) (m : VersionManager) : VersionWorld :=
  { w with managers := w.managers.insert i m }

def setStore (w : VersionWorld) (s : MemoryStore) : VersionWorld :=
  { w with held := { w.held with store := s } }

def setResult (w : VersionWorld) (ticket : String) (r : VersionResult) : VersionWorld :=
  { w with results := w.results.insert ticket r }

end VersionWorld

inductive VersionTask
  | update (ticket : String) (manager : Nat) (stage : UpdateStage) (flight : Option Flight)
  | sync (ticket : String) (manager : Nat) (stage : SyncStage)
  | track (manager : Nat)

namespace VersionTask

def ticket? : VersionTask → Option String
  | .update t .. | .sync t .. => some t
  | .track _ => none

def gate? : VersionTask → Option Nat
  | .update _ _ _ f => f.map (·.gate)
  | _ => none

def alarm : VersionTask → Option Time
  | .update _ _ stage none => stage.alarm?
  | .sync _ _ (.pausing wake) => some wake
  | _ => none

def ready (now : Time) (w : VersionWorld) : VersionTask → Bool
  | .update _ _ _ (some f) => w.held.store.isOpen f.gate
  | .update _ _ stage none => (stage.alarm?).all (· ≤ now)
  | .sync t _ (.pausing wake) => wake ≤ now || w.cancelledSyncs.contains t
  | .sync .. => true
  | .track _ =>
    w.trackingCancelled || w.tracker.all fun t => !t.changes.isEmpty || t.closed

/-- The update goes on in a stage reached by an answer, or ends. -/
def goOn (w : VersionWorld) (ticket : String) (i : Nat) (stage : UpdateStage) :
    VersionWorld × List VersionTask × Option VersionTask :=
  match stage with
  | .finished r =>
    let w := { w with metrics := stage.countEnd (w.manager i) w.metrics }
    (w.setResult ticket (.updated r), [], none)
  | stage => (w, [], some (.update ticket i stage none))

def step (now : Time) (w : VersionWorld) :
    VersionTask → VersionWorld × List VersionTask × Option VersionTask
  | .update ticket i stage (some f) =>
    let (s, outcome) := w.held.store.land f
    goOn (w.setStore s) ticket i (stage.answer (w.manager i) outcome now)
  | .update ticket i (.preparing r) none =>
    let (m, stage) := UpdateStage.prepare (w.manager i) r now
    goOn (w.setManager i m) ticket i stage
  | .update ticket i (.adopting name version) none =>
    let m := (w.manager i).adopt name version
    goOn (w.setManager i m) ticket i (.finished (.ok ()))
  | .update ticket i stage none =>
    match stage.call? with
    | none => goOn w ticket i stage.wake
    | some call =>
      let m := w.manager i
      let w := { w with metrics := UpdateStage.countCall m call w.metrics }
      match w.held.store.launch m.recordType.resource.toKind call with
      | (s, .inl outcome) => goOn (w.setStore s) ticket i (stage.answer m outcome now)
      | (s, .inr f) => (w.setStore s, [], some (.update ticket i stage (some f)))
  | .sync ticket i stage =>
    let finish (w : VersionWorld) := (w.setResult ticket (.synced (w.manager i).hasSynced), [], none)
    if w.cancelledSyncs.contains ticket then finish w
    else
      match stage with
      | .listing =>
        let m := w.manager i
        let (s, outcome) := w.held.store.perform m.recordType.resource.toKind (SyncStage.call m)
        let (m, stage) := SyncStage.answer m outcome now
        let w := (w.setStore s).setManager i m
        match stage with
        | .finished => finish w
        | stage => (w, [], some (.sync ticket i stage))
      | .pausing _ => (w, [], some (.sync ticket i .listing))
      | .finished => finish w
  | .track i =>
    if w.trackingCancelled then (w.endTracking, [], none)
    else
      match w.tracker with
      | none => (w, [], none)
      | some t =>
        if t.changes.isEmpty then (w.endTracking, [], none)
        else
          let (m, t) := t.step (w.manager i) w.federated
          ({ w.setManager i m with tracker := some t }, [], some (.track i))

def rules : Rules VersionWorld VersionTask := ⟨ready, alarm, step⟩

end VersionTask

inductive VersionStep
  | store (c : StoreCommand)
  | advance (ms : Span)
  | sync (cancelled : Bool)
  | startSync (id : String)
  | cancelSync (id : String)
  | join (id : String)
  | hasSynced
  | get (resource : Object)
  | update (r : UpdateRequest)
  | startUpdate (id : String) (r : UpdateRequest)
  | delete (name : Name)
  | restart
  | metrics
  | federated (change : ObjectCache → ObjectCache)
  | track (downstream : Bool)
  | notify (name : Name)
  | drain
  | dropDownstream
  | closeChanges
  | cancelTracking

inductive VersionAnswer
  | done
  | reply (r : StoreReply)
  | result (r : VersionResult)
  | pending
  | stuck
  | versions (r : Except VersionError VersionMap)
  | metrics (m : Metrics)
  | sent (ok : Bool)
  | drained (names : List Name)

abbrev VersionRun := Schedule VersionWorld VersionTask

namespace VersionRun

def new (m : VersionManager) : VersionRun := Schedule.new (.new m)

def waitingGates (r : VersionRun) : List Nat := r.tasks.filterMap fun w => w.task.gate?

def change (r : VersionRun) (f : VersionWorld → VersionWorld) : VersionRun :=
  settle VersionTask.rules (r.mapWorld f)

def forget (r : VersionRun) (ticket : String) : VersionRun :=
  r.mapWorld fun w => { w with
    results := w.results.erase ticket
    cancelledSyncs := w.cancelledSyncs.filter (· != ticket) }

def inline (r : VersionRun) (task : String → VersionTask) (cancelled : Bool) :
    VersionRun × VersionAnswer :=
  let ticket := StoreRun.inlineTicket
  let r := r.forget ticket
  let r := if cancelled then
      r.mapWorld fun w => { w with cancelledSyncs := ticket :: w.cancelledSyncs }
    else r
  let r := await VersionTask.rules r (task ticket) fun w => w.results.contains ticket
  match r.world.results.find? ticket with
  | some result => (r, .result result)
  | none => ({ r with tasks := r.tasks.filter (·.task.ticket? != some ticket) }, .stuck)

def start (r : VersionRun) (id : String) (task : String → VersionTask) : VersionRun :=
  let ticket := StoreRun.backgroundTicket id
  settle VersionTask.rules ((r.forget ticket).add (task ticket))

def perform (r : VersionRun) : VersionStep → VersionRun × VersionAnswer
  | .store c =>
    let kind := (r.world.manager r.world.current).recordType.resource.toKind
    let (held, reply) := c.run kind r.waitingGates r.world.held
    (r.change fun w => { w with held := held }, .reply reply)
  | .advance ms => (pass VersionTask.rules r ms, .done)
  | .sync cancelled => r.inline (fun t => .sync t r.world.current .listing) cancelled
  | .startSync id => (r.start id fun t => .sync t r.world.current .listing, .done)
  | .cancelSync id =>
    (r.change fun w =>
      { w with cancelledSyncs := StoreRun.backgroundTicket id :: w.cancelledSyncs }, .done)
  | .join id =>
    match r.world.results.find? (StoreRun.backgroundTicket id) with
    | some result => (r, .result result)
    | none => (r, .pending)
  | .hasSynced => (r, .result (.synced (r.world.manager r.world.current).hasSynced))
  | .get resource => (r, .versions ((r.world.manager r.world.current).get resource))
  | .update request => r.inline (fun t => .update t r.world.current (.preparing request) none) false
  | .startUpdate id request =>
    (r.start id fun t => .update t r.world.current (.preparing request) none, .done)
  | .delete name =>
    (r.change fun w => w.setManager w.current ((w.manager w.current).delete name), .done)
  | .restart =>
    (r.change fun w =>
      let m := w.manager w.current
      { w with
        managers := w.managers.insert (w.current + 1)
          (.new m.recordType.namespaced m.federatedKind m.targetKind m.scope)
        current := w.current + 1 }, .done)
  | .metrics => (r.change fun w => { w with metrics := .empty }, .metrics r.world.metrics)
  | .federated f => (r.change fun w => { w with federated := f w.federated }, .done)
  | .track downstream =>
    let others := r.tasks.filter fun w => match w.task with
      | .track _ => false
      | _ => true
    let r := { r with tasks := others }.mapWorld fun w => { w with
      tracker := some ⟨[], false, if downstream then some [] else none⟩
      trackingCancelled := false
      leftover := [] }
    (settle VersionTask.rules (r.add (.track r.world.current)), .done)
  | .notify name =>
    match r.world.tracker with
    | some t =>
      if t.closed then (r, .sent false)
      else (r.change fun w => { w with tracker := some (t.notify name) }, .sent true)
    | none => (r, .sent false)
  | .drain =>
    let names := r.world.leftover ++ (r.world.tracker.bind (·.downstream)).getD []
    (r.change fun w => { w with
      leftover := []
      tracker := w.tracker.map fun t => { t with downstream := t.downstream.map fun _ => [] } },
      .drained names)
  | .dropDownstream =>
    (r.change fun w => { w with
      leftover := []
      tracker := w.tracker.map fun t => { t with downstream := none } }, .done)
  | .closeChanges =>
    (r.change fun w => { w with tracker := w.tracker.map fun t => { t with closed := true } }, .done)
  | .cancelTracking => (r.change fun w => { w with trackingCancelled := true }, .done)

end VersionRun

end FedTrack.Simulation
