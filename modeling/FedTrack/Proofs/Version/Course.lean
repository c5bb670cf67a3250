import FedTrack.Proofs.Store.Filed
import FedTrack.Proofs.Store.Progress
import FedTrack.Proofs.Version.Prepare
import FedTrack.Proofs.Version.Write
import FedTrack.Version.Sync
import FedTrack.Version.Update

namespace FedTrack

/-- A manager and the store that it writes its records to. -/
structure Site where
  manager : VersionManager
  store : MemoryStore

namespace Site

def kind (x : Site) : Kind := x.manager.recordType.resource.toKind

/-- The key of a resource's record in the cache. -/
def key (x : Site) (r : UpdateRequest) : Name := x.manager.recordName r.resource.name

def cached? (x : Site) (key : Name) : Option Object := x.manager.records.find? key

def stored? (x : Site) (name : Name) : Option Object := x.store.find? x.kind name

/-- The manager calls the store. -/
def call (x : Site) (c : Call) : Site × Outcome :=
  let (s, outcome) := x.store.perform x.kind c
  (⟨x.manager, s⟩, outcome)

def failNext (x : Site) (op : Operation) (f : Fault) : Site := ⟨x.manager, x.store.failNext op f⟩

/-- A call meets a fault, or it takes effect; the manager stays as it is. -/
theorem call_cases (x : Site) (c : Call) :
    ((∃ e, (x.call c).2 = .error e) ∧ (x.call c).1.store.objects = x.store.objects) ∨
    ∃ t : MemoryStore, t.objects = x.store.objects ∧
      (x.call c).2 = (t.commit x.kind c).2 ∧ (x.call c).1.store = (t.commit x.kind c).1 := by
  rcases x.store.perform_cases x.kind c with ⟨⟨e, he⟩, ho⟩ | ⟨t, ht, hc⟩
  · exact Or.inl ⟨⟨e, he⟩, ho⟩
  · refine Or.inr ⟨t, ht, ?_, ?_⟩
    · rw [← hc]
      rfl
    · rw [← hc]
      rfl

theorem kind_congr {x y : Site} (h : y.manager.setup = x.manager.setup) : y.kind = x.kind := by
  obtain ⟨-, -, ht⟩ := VersionManager.setup_iff.mp h
  simp only [kind, ht]

end Site

/-- In a turn a fault is queued, or the work under way takes a step at some time. -/
inductive Turn
  | fault (op : Operation) (f : Fault)
  | go (now : Time)

namespace Site

variable {σ : Type}

def turn (step : Time → Site → σ → Site × σ) (z : Site × σ) : Turn → Site × σ
  | .fault op f => (z.1.failNext op f, z.2)
  | .go now => step now z.1 z.2

/-- Work on its way, with faults queued at any point. -/
def course (step : Time → Site → σ → Site × σ) (turns : List Turn) (z : Site × σ) : Site × σ :=
  turns.foldl (turn step) z

/-- What the turns preserve holds along the whole course. -/
theorem course_induction {step : Time → Site → σ → Site × σ} {P : Site × σ → Prop}
    (fault : ∀ op f z, P z → P (z.1.failNext op f, z.2))
    (go : ∀ now z, P z → P (step now z.1 z.2)) (turns : List Turn) {z : Site × σ} (h : P z) :
    P (course step turns z) := by
  induction turns generalizing z with
  | nil => exact h
  | cons t rest ih =>
    cases t with
    | fault op f => exact ih (fault op f z h)
    | go now => exact ih (go now z h)

end Site

/-- One step of an update: a locked section, a call, or the end of a pause. -/
def UpdateStage.step (now : Time) (x : Site) : UpdateStage → Site × UpdateStage
  | .preparing r =>
    let (m, u) := UpdateStage.prepare x.manager r now
    (⟨m, x.store⟩, u)
  | .writing name w =>
    match w.call? name with
    | none => (x, .writing name w.wake)
    | some c =>
      let (x, outcome) := x.call c
      (x, UpdateStage.answer x.manager (.writing name w) outcome now)
  | .adopting name version => (⟨x.manager.adopt name version, x.store⟩, .finished (.ok ()))
  | .finished result => (x, .finished result)

/-- One step of a sync: a listing or the end of a pause. -/
def SyncStage.step (now : Time) (x : Site) : SyncStage → Site × SyncStage
  | .listing =>
    let (x, outcome) := x.call (SyncStage.call x.manager)
    let (m, stage) := SyncStage.answer x.manager outcome now
    (⟨m, x.store⟩, stage)
  | .pausing _ => (x, .listing)
  | .finished => (x, .finished)

namespace UpdateStage

open MemoryStore

theorem afterWrite_of_saved {w : Write} {version : Option String} (h : w.saved? = some version)
    (m : VersionManager) (name : Name) : afterWrite m name w = .adopting name version := by
  unfold Write.saved? at h
  split at h
  · rename_i v hs
    cases h
    simp only [afterWrite, hs]
  · cases h

theorem afterWrite_of_unsaved {w : Write} (h : w.saved? = none) (m : VersionManager) (name : Name) :
    afterWrite m name w = .writing name w ∨
      ∃ cause, afterWrite m name w = .finished (.error (.notWritten m.recordType name cause)) := by
  unfold Write.saved? at h
  split at h
  · cases h
  · rename_i hs
    unfold afterWrite
    split
    · rename_i v hv
      exact absurd hv (hs v)
    · rename_i cause _
      exact Or.inr ⟨cause, rfl⟩
    · exact Or.inl rfl

/-- What a step of a write can do: the manager stays as it is, and the write goes on, fails, or
has stored the record. -/
inductive Wrote (x : Site) (name : Name) (record : Object) : Site × UpdateStage → Prop
  | on {y : Site} {w : Write} (hm : y.manager = x.manager)
      (hs : Opened x.kind record.name x.store y.store) (hw : w.record = record) :
      Wrote x name record (y, .writing name w)
  | failed {y : Site} {cause : WriteFailure} (hm : y.manager = x.manager)
      (hs : Opened x.kind record.name x.store y.store) :
      Wrote x name record (y, .finished (.error (.notWritten x.manager.recordType name cause)))
  | saved {y : Site} {version : Option String} (hm : y.manager = x.manager)
      (hs : Saved x.kind record x.store y.store) : Wrote x name record (y, .adopting name version)

theorem wrote_of_unsaved {x y : Site} {name : Name} {record : Object} {w : Write}
    (hm : y.manager = x.manager) (hs : Opened x.kind record.name x.store y.store)
    (hw : w.record = record) (h : w.saved? = none) :
    Wrote x name record (y, afterWrite x.manager name w) := by
  rcases afterWrite_of_unsaved h x.manager name with ha | ⟨cause, ha⟩
  · rw [ha]
    exact .on hm hs hw
  · rw [ha]
    exact .failed hm hs

/-- Without an answer nothing is written. -/
theorem wrote_of_error {x y : Site} {name : Name} {w : Write} {e : StoreError} {now : Time}
    (hm : y.manager = x.manager) (hs : y.store.objects = x.store.objects) (h : w.saved? = none) :
    Wrote x name w.record (y, afterWrite x.manager name (w.answer (.error e) now)) :=
  wrote_of_unsaved hm (opened_of_objects _ _ hs) (w.record_answer _ _)
    (w.saved?_answer_error e now h)

theorem wrote_refreshing {x : Site} {name : Name} {w : Write} (now : Time)
    (hw : w.stage = .refreshing) :
    Wrote x name w.record ((x.call (.get name)).1,
      afterWrite x.manager name (w.answer (x.call (.get name)).2 now)) := by
  have hn : w.saved? = none := by simp only [Write.saved?, hw]
  rcases x.call_cases (.get name) with ⟨⟨e, he⟩, ho⟩ | ⟨t, ht, hcall, hstore⟩
  · rw [he]
    exact wrote_of_error rfl ho hn
  · obtain ⟨hr, ho⟩ := t.commit_get x.kind name
    have hobj : (x.call (.get name)).1.store.objects = x.store.objects := by rw [hstore, ho, ht]
    rw [hcall, hr]
    refine wrote_of_unsaved rfl (opened_of_objects _ _ hobj) (w.record_answer _ _) ?_
    simp only [Write.answer, hw, Write.saved?]
    rcases Write.stage_direction (Write.versionOf (.found (t.find? x.kind name))) with hd | hd
    · rw [hd]
    · rw [hd]

theorem wrote_creating {x : Site} {name : Name} {w : Write} (now : Time)
    (hw : w.stage = .creating) :
    Wrote x name w.record ((x.call (.create (w.record.setResourceVersion none))).1,
      afterWrite x.manager name
        (w.answer (x.call (.create (w.record.setResourceVersion none))).2 now)) := by
  generalize hr : w.record.setResourceVersion none = record
  have hname : record.name = w.record.name := by rw [← hr, Object.name_setResourceVersion]
  have hn : w.saved? = none := by simp only [Write.saved?, hw]
  rcases x.call_cases (.create record) with ⟨⟨e, he⟩, ho⟩ | ⟨t, ht, hcall, hstore⟩
  · rw [he]
    exact wrote_of_error rfl ho hn
  · rcases t.commit_create x.kind record with ⟨⟨e, he⟩, ho⟩ | ⟨hnone, p, hp, -, hd, ho⟩
    · rw [hcall, he]
      exact wrote_of_error rfl (by rw [hstore, ho, ht]) hn
    · rw [hcall, hp]
      have hempty : RecordType.status? p = some .empty :=
        RecordType.status?_without (by simp [hd])
      refine wrote_of_unsaved rfl (Or.inr ⟨?_, p, hempty, ?_⟩) (w.record_answer _ _) ?_
      · rw [← hname, ← find?_congr ht]
        exact hnone
      · intro k n
        rw [hstore, find?_of_insert ho, find?_congr ht, hname]
      · simp only [Write.answer, hw, Write.saved?]

theorem wrote_updating {x : Site} {name : Name} {w : Write} (now : Time)
    (hw : w.stage = .updating) :
    Wrote x name w.record ((x.call (.updateStatus (w.record.setResourceVersion w.token))).1,
      afterWrite x.manager name
        (w.answer (x.call (.updateStatus (w.record.setResourceVersion w.token))).2 now)) := by
  generalize hr : w.record.setResourceVersion w.token = record
  have hname : record.name = w.record.name := by rw [← hr, Object.name_setResourceVersion]
  have hstatus : RecordType.status? record = RecordType.status? w.record := by
    rw [← hr, RecordType.status?_setResourceVersion]
  have hn : w.saved? = none := by simp only [Write.saved?, hw]
  rcases x.call_cases (.updateStatus record) with ⟨⟨e, he⟩, ho⟩ | ⟨t, ht, hcall, hstore⟩
  · rw [he]
    exact wrote_of_error rfl ho hn
  · rcases t.commit_updateStatus x.kind record with ⟨⟨e, he⟩, ho⟩ | ⟨stored, p, -, hp, -, hd, ho⟩
    · rw [hcall, he]
      exact wrote_of_error rfl (by rw [hstore, ho, ht]) hn
    · rw [hcall, hp]
      have hdone : (w.answer (.ok (.stored p)) now).saved? = some p.resourceVersion := by
        simp only [Write.answer, hw, Write.saved?, Write.versionOf]
      rw [afterWrite_of_saved hdone]
      refine .saved rfl ⟨p, ?_, ?_⟩
      · have hsame : RecordType.status? p = RecordType.status? (withStatus stored record) :=
          RecordType.status?_congr (by rw [hd])
        rw [hsame, status?_withStatus, hstatus]
      · intro k n
        rw [hstore, find?_of_insert ho, find?_congr ht, hname]

theorem step_writing (now : Time) (x : Site) (name : Name) (w : Write) :
    Wrote x name w.record (step now x (.writing name w)) := by
  have idle (h : w.call? name = none) :
      Wrote x name w.record (step now x (.writing name w)) := by
    simp only [step, h]
    exact .on rfl (opened_of_objects _ _ rfl) w.record_wake
  cases hw : w.stage with
  | refreshing =>
    have hc : w.call? name = some (.get name) := by simp only [Write.call?, hw]
    simp only [step, hc]
    exact wrote_refreshing now hw
  | creating =>
    have hc : w.call? name = some (.create (w.record.setResourceVersion none)) := by
      simp only [Write.call?, hw]
    simp only [step, hc]
    exact wrote_creating now hw
  | updating =>
    have hc : w.call? name = some (.updateStatus (w.record.setResourceVersion w.token)) := by
      simp only [Write.call?, hw]
    simp only [step, hc]
    exact wrote_updating now hw
  | sleeping wake => exact idle (by simp only [Write.call?, hw])
  | done result => exact idle (by simp only [Write.call?, hw])

/-- What the first part of an update can do: nothing at all, or it puts the record that it is
going to write in the cache. -/
inductive Began (x : Site) (r : UpdateRequest) : Site × UpdateStage → Prop
  | refused {e : VersionError} (hp : x.manager.prepare r = .error e) :
      Began x r (x, .finished (.error e))
  | idle (hp : x.manager.prepare r = .ok (x.manager, none)) : Began x r (x, .finished (.ok ()))
  | changed {w : Write}
      (hp : x.manager.prepare r = .ok (x.manager.cache (x.key r) w.record, some w.record)) :
      Began x r (⟨x.manager.cache (x.key r) w.record, x.store⟩, .writing (x.key r) w)

theorem step_preparing (now : Time) (x : Site) (r : UpdateRequest) :
    Began x r (step now x (.preparing r)) := by
  cases hp : x.manager.prepare r with
  | error e =>
    simp only [step, prepare, hp]
    exact .refused hp
  | ok p =>
    obtain ⟨m, record⟩ := p
    cases record with
    | none =>
      obtain ⟨rfl, -⟩ := VersionManager.prepare_none hp
      simp only [step, prepare, hp]
      exact .idle hp
    | some record =>
      obtain ⟨rfl, -, -⟩ := VersionManager.prepare_some hp
      have hk : (x.manager.cache (x.manager.recordName r.resource.name) record).recordName
          r.resource.name = x.key r :=
        VersionManager.recordName_congr (VersionManager.setup_prepare hp) _
      simp only [step, prepare, hp, hk]
      exact .changed (w := Write.start record now) hp

end UpdateStage

end FedTrack
