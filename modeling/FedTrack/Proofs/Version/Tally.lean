import FedTrack.Proofs.Simulation.VersionRun
import FedTrack.Proofs.Store.Faults
import FedTrack.Proofs.Version.Refusal
import Mathlib.Data.List.Perm.Basic

namespace FedTrack

theorem Metrics.counter_add (m : Metrics) (key other : MetricKey) (n : Nat) :
    (m.add key n).counter other = m.counter other + if key = other then n else 0 := by
  simp only [counter, add, Table.find?_insert]
  split
  · rename_i h
    rw [h]
    rfl
  · rfl

theorem Metrics.writeFailures_ne (recordType targetKind recordType' targetKind' : String) :
    writeFailures recordType targetKind ≠ writeAttempts recordType' targetKind' := by
  simp [writeFailures, writeAttempts]

namespace MemoryStore

/-- A call is counted when it comes to the store, whether or not it has to wait there. -/
theorem counted_launch (s : MemoryStore) (kind : Kind) (call : Call) :
    Counted call.operation s.attempts (s.launch kind call).1.attempts := by
  cases h : (s.launch kind call).2 with
  | inl outcome =>
    have hp := (served_perform s kind call).attempts
    rw [launch_answers h] at hp
    exact hp
  | inr flight => exact (launch_waits h).2.2.2.2

end MemoryStore

namespace UpdateStage

/-- Where an update stands, by the store calls that it has made. -/
def Told : UpdateStage → List Call → Prop
  | .preparing _, calls => calls = []
  | .writing name w, calls => calls ≠ [] ∨ w.call? name ≠ none
  | .adopting .., calls => calls ≠ []
  | .finished (.error (.notWritten ..)), calls => calls ≠ []
  | .finished (.error _), calls => calls = []
  | .finished (.ok _), _ => True

variable {calls : List Call}

theorem told_writing (h : calls ≠ []) (name : Name) (w : Write) : (writing name w).Told calls :=
  Or.inl h

theorem told_afterWrite (h : calls ≠ []) (m : VersionManager) (name : Name) (w : Write) :
    (afterWrite m name w).Told calls := by
  unfold afterWrite
  split
  · exact h
  · exact h
  · exact Or.inl h

theorem told_answer {stage : UpdateStage} (h : calls ≠ []) (ht : stage.Told calls)
    (m : VersionManager) (outcome : Outcome) (now : Time) :
    (stage.answer m outcome now).Told calls := by
  cases stage with
  | writing name w => exact told_afterWrite h m name _
  | _ => exact ht

theorem told_prepare (m : VersionManager) (r : UpdateRequest) (now : Time) :
    (prepare m r now).2.Told [] := by
  unfold prepare
  split
  · rename_i e hp
    cases VersionManager.refusal_of_prepare hp <;> rfl
  · trivial
  · exact Or.inr (Write.call?_start _ now _)

theorem setup_prepare (m : VersionManager) (r : UpdateRequest) (now : Time) :
    (prepare m r now).1.setup = m.setup := by
  unfold prepare
  split
  · rfl
  · rename_i hp
    exact VersionManager.setup_prepare hp
  · rename_i hp
    exact VersionManager.setup_prepare hp

end UpdateStage

theorem SyncStage.setup_answer (m : VersionManager) (outcome : Outcome) (now : Time) :
    (answer m outcome now).1.setup = m.setup := by
  unfold answer
  split <;> rfl

namespace Simulation

@[simp] theorem StoreCommand.attempts_run (kind : Kind) (waiting : List Nat) (c : StoreCommand)
    (h : HeldStore) : (c.run kind waiting h).1.store.attempts = h.store.attempts := by
  cases c with
  | failNext op fault times =>
    have hfold (l : List Nat) (s : MemoryStore) :
        (l.foldl (fun s _ => s.failNext op fault) s).attempts = s.attempts := by
      induction l generalizing s with
      | nil => rfl
      | cons _ rest ih => exact ih _
    exact hfold _ _
  | insert o => exact MemoryStore.attempts_stampNew h.store o
  | remove name => rfl
  | stored name => rfl
  | count => rfl
  | hold id op name =>
    simp only [run]
    split <;> rfl
  | release id =>
    simp only [run]
    split <;> rfl
  | dropHold id =>
    simp only [run]
    split <;> rfl

/-- The store call that the next step of a task makes, if it makes one. -/
def VersionTask.call? (w : VersionWorld) : VersionTask → Option Call
  | .update _ _ stage none => stage.call?
  | .sync ticket i .listing =>
    if w.cancelledSyncs.contains ticket then none else some (SyncStage.call (w.manager i))
  | _ => none

/-- A call to the manager of a run: the task that it still is, or what it has returned, and the
store calls that it has made, the latest first. -/
structure Job where
  stands : VersionTask ⊕ Option VersionResult
  calls : List Call

namespace Job

/-- The call has returned an error, after it had called the store. -/
def failed (j : Job) : Bool :=
  match j.stands with
  | .inr (some (.updated (.error _))) => !j.calls.isEmpty
  | _ => false

/-- What a step makes of the call with this ticket. -/
def after (ticket : Option String) (out : VersionWorld × List VersionTask × Option VersionTask)
    (calls : List Call) : Job :=
  ⟨match out.2.2 with
    | some task => .inl task
    | none => .inr (ticket.bind fun t => out.1.results.find? t), calls⟩

theorem after_ended {w : VersionWorld} {ticket : String} {result : VersionResult}
    (h : w.results.find? ticket = some result) (calls : List Call) :
    after (some ticket) (w, [], none) calls = ⟨.inr (some result), calls⟩ := by
  simp [after, h]

end Job

/-- A run of one manager, with all calls that were made to it. -/
structure Tally where
  world : VersionWorld
  jobs : List Job

/-- What can happen next, in any order. Nobody but the manager calls the store, and what it is
asked to read from its cache changes nothing. -/
inductive TallyEvent
  | store (kind : Kind) (waiting : List Nat) (c : StoreCommand)
  | update (ticket : String) (r : UpdateRequest)
  | sync (ticket : String)
  | cancelSync (ticket : String)
  | delete (name : Name)
  /-- The `i`th call takes a step. -/
  | go (i : Nat) (now : Time)

namespace Tally

def new (m : VersionManager) : Tally := ⟨.new m, []⟩

def step (s : Tally) : TallyEvent → Tally
  | .store kind waiting c =>
    { s with world := { s.world with held := (c.run kind waiting s.world.held).1 } }
  | .update ticket r =>
    { s with jobs := s.jobs ++ [⟨.inl (.update ticket 0 (.preparing r) none), []⟩] }
  | .sync ticket => { s with jobs := s.jobs ++ [⟨.inl (.sync ticket 0 .listing), []⟩] }
  | .cancelSync ticket =>
    { s with world := { s.world with cancelledSyncs := ticket :: s.world.cancelledSyncs } }
  | .delete name => { s with world := s.world.setManager 0 ((s.world.manager 0).delete name) }
  | .go i now =>
    match s.jobs[i]? with
    | some ⟨.inl task, calls⟩ =>
      let out := task.step now s.world
      ⟨out.1, s.jobs.set i (.after task.ticket? out ((task.call? s.world).toList ++ calls))⟩
    | _ => s

def run (s : Tally) (events : List TallyEvent) : Tally := events.foldl step s

end Tally

namespace Job

/-- The call is one to the manager of the run, and stands where its store calls tell. -/
def Sound (j : Job) : Prop :=
  match j.stands with
  | .inl (.update _ i stage flight) =>
    i = 0 ∧ stage.Told j.calls ∧ (flight.isSome → j.calls ≠ [])
  | .inl (.sync _ i _) => i = 0
  | .inl (.track _) => False
  | .inr _ => True

end Job

/-- From `w` to `w'` the manager `m` has made a call, or none, and this number of updates has
failed. -/
structure Moved (m : VersionManager) (w : VersionWorld) (c : Option Call) (w' : VersionWorld)
    (failures : Nat) : Prop where
  setup : (w'.manager 0).setup = m.setup
  attempts : ∀ op, w'.held.store.attempts op =
    w.held.store.attempts op + c.toList.countP (·.operation = op)
  written : w'.metrics.counter (Metrics.writeAttempts m.recordType.kindName m.targetKind) =
    w.metrics.counter (Metrics.writeAttempts m.recordType.kindName m.targetKind) +
      c.toList.countP fun call => call.operation = .create ∨ call.operation = .updateStatus
  failed : w'.metrics.counter (Metrics.writeFailures m.recordType.kindName m.targetKind) =
    w.metrics.counter (Metrics.writeFailures m.recordType.kindName m.targetKind) + failures

section

variable {m : VersionManager} {w w' : VersionWorld} {c : Option Call} {calls : List Call}

theorem moved_refl (hw : (w.manager 0).setup = m.setup) : Moved m w none w 0 :=
  ⟨hw, fun _ => rfl, rfl, rfl⟩

/-- The manager works on its records. -/
theorem Moved.setManager {n : Nat} (h : Moved m w c w' n) {m' : VersionManager}
    (hm : m'.setup = m.setup) : Moved m w c (w'.setManager 0 m') n :=
  ⟨by rw [VersionWorld.manager_setManager, hm], h.attempts, h.written, h.failed⟩

/-- A result is noted. -/
theorem Moved.setResult {n : Nat} (h : Moved m w c w' n) (ticket : String)
    (result : VersionResult) : Moved m w c (w'.setResult ticket result) n :=
  ⟨h.setup, h.attempts, h.written, h.failed⟩

/-- An answer arrives that has been waited for. -/
theorem Moved.land {n : Nat} (h : Moved m w c w' n) (f : Flight) :
    Moved m w c (w'.setStore (w'.held.store.land f).1) n :=
  ⟨h.setup, fun op => (congrFun (MemoryStore.carried_commit w'.held.store f.kind f.call).attempts
    op).trans (h.attempts op), h.written, h.failed⟩

theorem add_of_counted {before after : Counts} {call : Call}
    (h : MemoryStore.Counted call.operation before after) (op : Operation) :
    after op = before op + (some call).toList.countP (·.operation = op) := by
  by_cases hop : call.operation = op
  · subst hop
    simp [h.own]
  · simp [h.others op (Ne.symm hop), hop]

/-- A call is counted when it is made. -/
theorem moved_call (hw : (w.manager 0).setup = m.setup) (call : Call) {s : MemoryStore}
    (hs : MemoryStore.Counted call.operation w.held.store.attempts s.attempts) :
    Moved m w (some call) (({ w with
      metrics := UpdateStage.countCall (w.manager 0) call w.metrics }).setStore s) 0 := by
  obtain ⟨hkind, -, htype⟩ := VersionManager.setup_iff.mp hw
  refine ⟨hw, add_of_counted hs, ?_, ?_⟩
  · cases call <;>
      simp [VersionWorld.setStore, UpdateStage.countCall, Metrics.counter_add, hkind, htype,
        Call.operation]
  · cases call <;>
      simp [VersionWorld.setStore, UpdateStage.countCall, Metrics.counter_add, hkind, htype,
        Metrics.writeAttempts, Metrics.writeFailures]

/-- The end of an update is counted if it has returned an error and has called the store. -/
theorem Moved.countEnd (h : Moved m w c w' 0) {result : Except VersionError Unit}
    (ht : (UpdateStage.finished result).Told calls) :
    Moved m w c
      { w' with metrics := UpdateStage.countEnd (w'.manager 0) (.finished result) w'.metrics }
      (if (⟨.inr (some (.updated result)), calls⟩ : Job).failed then 1 else 0) := by
  cases result with
  | ok _ => exact h
  | error e =>
    cases e with
    | notWritten type name cause =>
      obtain ⟨hkind, -, htype⟩ := VersionManager.setup_iff.mp h.setup
      have hcalls : calls ≠ [] := ht
      have hfailed : (⟨.inr (some (.updated (.error (.notWritten type name cause)))), calls⟩ :
          Job).failed = true := by
        simpa [Job.failed] using hcalls
      rw [hfailed, if_pos rfl]
      refine ⟨h.setup, h.attempts, ?_, ?_⟩
      · rw [UpdateStage.countEnd, Metrics.counter_add, if_neg (Metrics.writeFailures_ne _ _ _ _)]
        exact h.written
      · rw [UpdateStage.countEnd, Metrics.counter_add, hkind, htype, if_pos rfl, h.failed]
    | _ =>
      have hcalls : calls = [] := ht
      subst hcalls
      exact h

/-- A call has come from `w` to where it stands now, and the store calls that it has made tell
where that is. -/
def Went (m : VersionManager) (w : VersionWorld) (c : Option Call) (w' : VersionWorld) (j : Job) :
    Prop :=
  j.Sound ∧ Moved m w c w' (if j.failed then 1 else 0)

theorem went_goOn (h : Moved m w c w' 0) (stage : UpdateStage) (ht : stage.Told calls)
    (ticket : String) :
    Went m w c (VersionTask.goOn w' ticket 0 stage).1
      (.after (some ticket) (VersionTask.goOn w' ticket 0 stage) calls) := by
  unfold VersionTask.goOn
  split
  · rename_i result
    rw [Job.after_ended (VersionWorld.find?_setResult _ ticket _)]
    exact ⟨trivial, (h.countEnd ht).setResult ticket _⟩
  · exact ⟨⟨rfl, ht, nofun⟩, h⟩

/-- A sync ends. -/
theorem went_synced (h : Moved m w c w' 0) (ticket : String) (hasSynced : Bool)
    (calls : List Call) :
    Went m w c (w'.setResult ticket (.synced hasSynced))
      (.after (some ticket) (w'.setResult ticket (.synced hasSynced), [], none) calls) := by
  rw [Job.after_ended (VersionWorld.find?_setResult _ ticket _)]
  exact ⟨trivial, h.setResult ticket _⟩

theorem went_update {ticket : String} {i : Nat} {stage : UpdateStage} {flight : Option Flight}
    (hw : (w.manager 0).setup = m.setup)
    (hj : (⟨.inl (.update ticket i stage flight), calls⟩ : Job).Sound) (now : Time) :
    let task : VersionTask := .update ticket i stage flight
    Went m w (task.call? w) (task.step now w).1
      (.after (some ticket) (task.step now w) ((task.call? w).toList ++ calls)) := by
  obtain ⟨rfl, ht, hflight⟩ := hj
  cases flight with
  | some f =>
    -- the call that is answered now was counted when it was made
    exact went_goOn ((moved_refl hw).land f) _
      (UpdateStage.told_answer (hflight rfl) ht _ _ now) ticket
  | none =>
    cases stage with
    | preparing r =>
      have hcalls : calls = [] := ht
      subst hcalls
      exact went_goOn ((moved_refl hw).setManager ((UpdateStage.setup_prepare _ r now).trans hw)) _
        (UpdateStage.told_prepare (w.manager 0) r now) ticket
    | adopting name version =>
      exact went_goOn ((moved_refl hw).setManager
        ((VersionManager.setup_adopt name version).trans hw)) (.finished (.ok ())) trivial ticket
    | finished result => exact went_goOn (moved_refl hw) _ ht ticket
    | writing name write =>
      cases hc : write.call? name with
      | none =>
        have hcalls : calls ≠ [] := ht.resolve_right fun h => h hc
        simp only [VersionTask.step, VersionTask.call?, UpdateStage.call?, hc]
        exact went_goOn (moved_refl hw) _ (UpdateStage.told_writing hcalls name write.wake) ticket
      | some call =>
        have hcalls : call :: calls ≠ [] := List.cons_ne_nil call calls
        have ht' := UpdateStage.told_writing hcalls name write
        have hcall := moved_call hw call
          (MemoryStore.counted_launch w.held.store (w.manager 0).recordType.resource.toKind call)
        simp only [VersionTask.step, VersionTask.call?, UpdateStage.call?, hc]
        split
        · rename_i s outcome hl
          rw [hl] at hcall
          exact went_goOn hcall _ (UpdateStage.told_answer hcalls ht' _ _ now) ticket
        · rename_i s f hl
          rw [hl] at hcall
          exact ⟨⟨rfl, ht', fun _ => hcalls⟩, hcall⟩

theorem went_sync {ticket : String} {i : Nat} {stage : SyncStage}
    (hw : (w.manager 0).setup = m.setup)
    (hj : (⟨.inl (.sync ticket i stage), calls⟩ : Job).Sound) (now : Time) :
    let task : VersionTask := .sync ticket i stage
    Went m w (task.call? w) (task.step now w).1
      (.after (some ticket) (task.step now w) ((task.call? w).toList ++ calls)) := by
  have hi : i = 0 := hj
  subst hi
  intro task
  by_cases hcancelled : w.cancelledSyncs.contains ticket = true
  · have hcall : task.call? w = none := by
      cases stage <;> simp only [task, VersionTask.call?, hcancelled, if_true]
    have hstep : task.step now w =
        (w.setResult ticket (.synced (w.manager 0).hasSynced), [], none) := by
      simp only [task, VersionTask.step, hcancelled, if_true]
    rw [hcall, hstep]
    exact went_synced (moved_refl hw) ticket _ calls
  · cases stage with
    | listing =>
      have hlisted : Moved m w (some (SyncStage.call (w.manager 0))) (w.setStore
          (w.held.store.perform (w.manager 0).recordType.resource.toKind
            (SyncStage.call (w.manager 0))).1) 0 :=
        moved_call hw (SyncStage.call (w.manager 0)) (MemoryStore.served_perform _ _ _).attempts
      have hsetup := SyncStage.setup_answer (w.manager 0) (w.held.store.perform
        (w.manager 0).recordType.resource.toKind (SyncStage.call (w.manager 0))).2 now
      simp only [task, VersionTask.step, VersionTask.call?, hcancelled]
      cases ha : SyncStage.answer (w.manager 0) (w.held.store.perform
          (w.manager 0).recordType.resource.toKind (SyncStage.call (w.manager 0))).2 now with
      | mk m' stage =>
        rw [ha] at hsetup
        have hmoved := hlisted.setManager (hsetup.trans hw)
        cases stage with
        | finished => exact went_synced hmoved ticket _ _
        | listing => exact ⟨rfl, hmoved⟩
        | pausing wake => exact ⟨rfl, hmoved⟩
    | pausing wake =>
      simp only [task, VersionTask.step, VersionTask.call?, hcancelled]
      exact ⟨rfl, moved_refl hw⟩
    | finished =>
      simp only [task, VersionTask.step, VersionTask.call?, hcancelled]
      exact went_synced (moved_refl hw) ticket _ calls

theorem went_step {task : VersionTask} (hw : (w.manager 0).setup = m.setup)
    (hj : (⟨.inl task, calls⟩ : Job).Sound) (now : Time) :
    Went m w (task.call? w) (task.step now w).1
      (.after task.ticket? (task.step now w) ((task.call? w).toList ++ calls)) := by
  cases task with
  | update ticket i stage flight => exact went_update hw hj now
  | sync ticket i stage => exact went_sync hw hj now
  | track i => exact absurd hj id

/-- The metrics of a run agree with what the calls to the manager have done. -/
structure Tallied (m : VersionManager) (w : VersionWorld) (jobs : List Job) : Prop where
  setup : (w.manager 0).setup = m.setup
  written : w.metrics.counter (Metrics.writeAttempts m.recordType.kindName m.targetKind) =
    w.held.store.attempts .create + w.held.store.attempts .updateStatus
  failed : w.metrics.counter (Metrics.writeFailures m.recordType.kindName m.targetKind) =
    jobs.countP (·.failed)
  calls : ∀ op, w.held.store.attempts op = (jobs.flatMap (·.calls)).countP (·.operation = op)
  sound : ∀ j ∈ jobs, j.Sound

namespace Tallied

variable {jobs : List Job}

theorem start (m : VersionManager) : Tallied m (Tally.new m).world (Tally.new m).jobs where
  setup := by
    have hm : (Tally.new m).world.manager 0 = m := by
      simp [Tally.new, VersionWorld.new, VersionWorld.manager]
    rw [hm]
  written := rfl
  failed := rfl
  calls op := rfl
  sound j hj := absurd hj List.not_mem_nil

theorem perm {jobs' : List Job} (h : Tallied m w jobs) (hp : jobs'.Perm jobs) :
    Tallied m w jobs' where
  setup := h.setup
  written := h.written
  failed := h.failed.trans (hp.countP_eq _).symm
  calls op := (h.calls op).trans ((hp.flatMap_right _).countP_eq _).symm
  sound j hj := h.sound j (hp.mem_iff.mp hj)

/-- Nothing happens that counts. -/
theorem idle (h : Tallied m w jobs) (hsetup : (w'.manager 0).setup = (w.manager 0).setup)
    (hattempts : w'.held.store.attempts = w.held.store.attempts)
    (hmetrics : w'.metrics = w.metrics) : Tallied m w' jobs where
  setup := hsetup.trans h.setup
  written := by rw [hmetrics, hattempts, h.written]
  failed := by rw [hmetrics, h.failed]
  calls op := by rw [hattempts, h.calls op]
  sound := h.sound

/-- A call begins. -/
theorem ask (h : Tallied m w jobs) {task : VersionTask} (ht : (⟨.inl task, []⟩ : Job).Sound) :
    Tallied m w (jobs ++ [⟨.inl task, []⟩]) where
  setup := h.setup
  written := h.written
  failed := by simp [h.failed, Job.failed]
  calls op := by simp [h.calls op]
  sound j hj := by
    rcases List.mem_append.mp hj with hj | hj
    · exact h.sound j hj
    · rw [List.mem_singleton.mp hj]
      exact ht

/-- A call takes a step. -/
theorem cons {task : VersionTask} {others : List Job} {j : Job}
    (h : Tallied m w (⟨.inl task, calls⟩ :: others)) (hj : Went m w c w' j)
    (hcalls : j.calls = c.toList ++ calls) : Tallied m w' (j :: others) where
  setup := hj.2.setup
  written := by
    have hc : c.toList.countP (fun call =>
          call.operation = .create ∨ call.operation = .updateStatus) =
        c.toList.countP (·.operation = .create) +
          c.toList.countP (·.operation = .updateStatus) := by
      cases c with
      | none => rfl
      | some call => cases call <;> rfl
    rw [hj.2.written, h.written, hj.2.attempts, hj.2.attempts, hc]
    omega
  failed := by
    rw [hj.2.failed, h.failed, List.countP_cons, List.countP_cons]
    rfl
  calls op := by
    rw [hj.2.attempts, h.calls]
    simp only [List.flatMap_cons, List.countP_append, hcalls]
    omega
  sound := List.forall_mem_cons.mpr ⟨hj.1, (List.forall_mem_cons.mp h.sound).2⟩

theorem step {s : Tally} (h : Tallied m s.world s.jobs) (e : TallyEvent) :
    Tallied m (s.step e).world (s.step e).jobs := by
  cases e with
  | store kind waiting c => exact h.idle rfl (StoreCommand.attempts_run kind waiting c _) rfl
  | update ticket r => exact h.ask ⟨rfl, rfl, nofun⟩
  | sync ticket => exact h.ask rfl
  | cancelSync ticket => exact h.idle rfl rfl rfl
  | delete name => exact h.idle (by simp [Tally.step]) rfl rfl
  | go i now =>
    unfold Tally.step
    dsimp only
    split
    · rename_i task calls hi
      obtain ⟨hlt, hjob⟩ := List.getElem?_eq_some_iff.mp hi
      have hcons := h.perm (List.getElem_cons_eraseIdx_perm hlt)
      rw [hjob] at hcons
      have hwent := went_step hcons.setup (hcons.sound _ List.mem_cons_self) now
      exact (hcons.cons hwent rfl).perm (List.set_perm_cons_eraseIdx hlt _)
    · exact h

theorem run {s : Tally} (h : Tallied m s.world s.jobs) (events : List TallyEvent) :
    Tallied m (s.run events).world (s.run events).jobs := by
  induction events generalizing s with
  | nil => exact h
  | cons e rest ih => exact ih (h.step e)

end Tallied

end

/-- Whatever faults its calls meet and in whatever order its own steps come, a manager that is the
only client of its store counts as attempts to write the calls that create a record or update a
status, and no others, and as failures the updates that returned an error after they had called the
store. The store calls of all updates and syncs are those that the store has counted. -/
theorem write_metrics_match_calls (m : VersionManager) (events : List TallyEvent) :
    let s := (Tally.new m).run events
    let attempts := s.world.held.store.attempts
    s.world.metrics.counter (Metrics.writeAttempts m.recordType.kindName m.targetKind) =
      attempts .create + attempts .updateStatus ∧
    s.world.metrics.counter (Metrics.writeFailures m.recordType.kindName m.targetKind) =
      s.jobs.countP (·.failed) ∧
    ∀ op, attempts op = (s.jobs.flatMap (·.calls)).countP (·.operation = op) := by
  have h := (Tallied.start m).run events
  exact ⟨h.written, h.failed, h.calls⟩

/-- A create, an update that meets a conflict, a read and another update; and a create that is
forbidden, after which the update of another resource fails. -/
example :
    let m := Sample.start.manager
    let r := Sample.request "1"
    let other : UpdateRequest := { r with
      resource.metadata := { r.resource.metadata with name := some "api" } }
    let s := (Tally.new m).run <|
      [.store ⟨"", "", ""⟩ [] (.failNext .updateStatus .conflict 1), .update "a" r] ++
      List.replicate 7 (.go 0 0) ++
      [.store ⟨"", "", ""⟩ [] (.failNext .create .forbidden 1), .update "b" other] ++
      List.replicate 2 (.go 1 0)
    s.world.metrics.counter (Metrics.writeAttempts "PropagatedVersion" "Deployment") = 4 ∧
      s.world.metrics.counter (Metrics.writeFailures "PropagatedVersion" "Deployment") = 1 ∧
      s.jobs.map (·.failed) = [false, true] := by
  decide +kernel

end Simulation

end FedTrack
