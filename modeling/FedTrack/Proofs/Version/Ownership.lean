import FedTrack.Proofs.Version.Journey
import FedTrack.Proofs.Version.Runs
import FedTrack.Version.Tracker

namespace FedTrack

open MemoryStore

namespace VersionManager

/-- A record belongs to the owners of the record that was cached, or, if none was, to the resource
alone. -/
theorem owners_prepare {m m' : VersionManager} {r : UpdateRequest} {record : Object}
    (h : m.prepare r = .ok (m', some record)) :
    (∃ c, m.records.find? (m.recordName r.resource.name) = some c ∧
      record.metadata.ownerReferences = c.metadata.ownerReferences) ∨
    m.records.find? (m.recordName r.resource.name) = none ∧
      ∃ ref, r.resource.ownerReference = .ok ref ∧
        record.metadata.ownerReferences = some [ref] := by
  unfold prepare at h
  split at h
  · cases h
  · dsimp only at h
    split at h
    · rename_i c hc
      split at h
      · cases h
      · split at h
        · cases h
        · cases h
          exact Or.inl ⟨c, hc, rfl⟩
    · rename_i hc
      split at h
      · cases h
      · rename_i owner ho
        cases h
        exact Or.inr ⟨hc, owner, ho, rfl⟩

end VersionManager

namespace Tracker

/-- A change makes the manager forget a record, at most. -/
theorem step_cases (m : VersionManager) (federated : ObjectCache) (t : Tracker) :
    (t.step m federated).1 = m ∨ ∃ n, (t.step m federated).1 = m.delete n := by
  unfold step
  split
  · exact Or.inl rfl
  · rename_i name rest _
    dsimp only
    split
    · exact Or.inr ⟨name, rfl⟩
    · exact Or.inl rfl

end Tracker

/-- The owners of what is stored under a name. -/
def Site.owners? (x : Site) (n : Name) : Option (Option (List OwnerReference)) :=
  (x.stored? n).map (·.metadata.ownerReferences)

namespace UpdateStage

/-- The record that is being written. -/
def record? : UpdateStage → Option Object
  | .writing _ w => some w.record
  | _ => none

/-- The name of the record that a step from one stage to the other has created. -/
def created? : UpdateStage → UpdateStage → Option Name
  | .writing _ w, .writing _ w' =>
    match w.stage, w'.stage with
    | .creating, .updating => some w.record.name
    | _, _ => none
  | _, _ => none

theorem created?_of_ne {name : Name} {w : Write} (h : w.stage ≠ .creating) (u : UpdateStage) :
    created? (.writing name w) u = none := by
  unfold created?
  split
  · rename_i w₁ w₂ he
    cases he
    split
    · rename_i hs _
      exact absurd hs h
    · rfl
  · rfl

theorem created?_afterWrite {name : Name} {w w' : Write} (h : w'.stage ≠ .updating)
    (m : VersionManager) : created? (.writing name w) (afterWrite m name w') = none := by
  unfold afterWrite
  split
  · rfl
  · rfl
  · unfold created?
    dsimp only
    split
    · rename_i hs
      exact absurd hs h
    · rfl

/-- What a step of a write does to the owners of the stored objects: nothing, or it creates the
record with the owners it has. -/
inductive Credited (x : Site) (w : Write) (y : Site) : Option Name → Prop
  | kept (h : ∀ n, y.owners? n = x.owners? n) : Credited x w y none
  | created (h : ∀ n, y.owners? n = if w.record.name = n then
      some w.record.metadata.ownerReferences else x.owners? n) :
      Credited x w y (some w.record.name)

theorem credited_of_objects {x y : Site} {w : Write} (hk : y.kind = x.kind)
    (h : y.store.objects = x.store.objects) : Credited x w y none := by
  refine .kept ?_
  intro n
  rw [Site.owners?, Site.stored?, hk, find?_congr h]
  rfl

theorem stage_answer_error {w : Write} {name : Name} {c : Call} (hc : w.call? name = some c)
    (e : StoreError) (now : Time) : (w.answer (.error e) now).stage ≠ .updating := by
  have ha := Write.answered_answer hc (.error e) now
  generalize w.answer (.error e) now = w' at ha
  cases ha with
  | refused _ _ => exact nofun
  | again _ _ _ _ => exact nofun
  | timedOut _ _ _ => exact nofun

theorem credited_creating {x : Site} {name : Name} {w : Write} (now : Time)
    (hw : w.stage = .creating) :
    Credited x w (x.call (.create (w.record.setResourceVersion none))).1
      (created? (.writing name w) (afterWrite x.manager name
        (w.answer (x.call (.create (w.record.setResourceVersion none))).2 now))) := by
  have hc : w.call? name = some (.create (w.record.setResourceVersion none)) := by
    simp only [Write.call?, hw]
  generalize hr : w.record.setResourceVersion none = record at hc ⊢
  have hname : record.name = w.record.name := by rw [← hr, Object.name_setResourceVersion]
  have howners : record.metadata.ownerReferences = w.record.metadata.ownerReferences := by
    rw [← hr]
    rfl
  cases ho : (x.call (.create record)).2 with
  | error e =>
    rw [created?_afterWrite (stage_answer_error hc e now)]
    exact credited_of_objects rfl (objects_of_error ho)
  | ok a =>
    have hcreated : created? (.writing name w) (afterWrite x.manager name (w.answer (.ok a) now)) =
        some w.record.name := by
      simp only [Write.answer, hw, afterWrite, created?]
    rw [hcreated]
    obtain ⟨p, hp, hfind⟩ := perform_create_owners ho
    refine .created ?_
    intro n
    have hn := hfind x.kind n
    rw [hname] at hn
    show ((x.store.perform x.kind (.create record)).1.find? x.kind n).map _ = _
    rw [hn]
    by_cases he : w.record.name = n
    · rw [if_pos ⟨rfl, he⟩, if_pos he, Option.map_some, hp, howners]
    · rw [if_neg (fun h => he h.2), if_neg he]
      rfl

theorem credited_updating {x : Site} (w : Write) (record : Object) :
    Credited x w (x.call (.updateStatus record)).1 none := by
  cases ho : (x.call (.updateStatus record)).2 with
  | error e => exact credited_of_objects rfl (objects_of_error ho)
  | ok a =>
    obtain ⟨stored, k, hstored, -, -, hfind⟩ := perform_updateStatus_ok ho
    refine .kept ?_
    intro n
    show ((x.store.perform x.kind (.updateStatus record)).1.find? x.kind n).map _ =
      (x.store.find? x.kind n).map _
    rw [hfind]
    by_cases he : record.name = n
    · -- all but the status and the version stays as it was stored
      subst he
      rw [if_pos ⟨rfl, rfl⟩, hstored]
      rfl
    · rw [if_neg (fun h => he h.2)]

theorem credited_refreshing {x : Site} (w : Write) (name : Name) :
    Credited x w (x.call (.get name)).1 none := by
  refine credited_of_objects rfl ?_
  rcases x.call_cases (.get name) with ⟨-, ho⟩ | ⟨t, ht, -, hs⟩
  · exact ho
  · rw [hs, (t.commit_get x.kind name).2, ht]

theorem step_credited (now : Time) (x : Site) (name : Name) (w : Write) :
    Credited x w (step now x (.writing name w)).1
      (created? (.writing name w) (step now x (.writing name w)).2) := by
  have idle (h : w.call? name = none) (hs : w.stage ≠ .creating) :
      Credited x w (step now x (.writing name w)).1
        (created? (.writing name w) (step now x (.writing name w)).2) := by
    rw [created?_of_ne hs]
    simp only [step, h]
    exact credited_of_objects rfl rfl
  cases hw : w.stage with
  | refreshing =>
    have hc : w.call? name = some (.get name) := by simp only [Write.call?, hw]
    rw [created?_of_ne (by simp [hw])]
    simp only [step, hc]
    exact credited_refreshing w name
  | creating =>
    have hc : w.call? name = some (.create (w.record.setResourceVersion none)) := by
      simp only [Write.call?, hw]
    simp only [step, hc]
    exact credited_creating now hw
  | updating =>
    have hc : w.call? name = some (.updateStatus (w.record.setResourceVersion w.token)) := by
      simp only [Write.call?, hw]
    rw [created?_of_ne (by simp [hw])]
    simp only [step, hc]
    exact credited_updating w _
  | sleeping wake => exact idle (by simp only [Write.call?, hw]) (by simp [hw])
  | done result => exact idle (by simp only [Write.call?, hw]) (by simp [hw])

/-- A write keeps its record as long as it lasts. -/
theorem step_record (now : Time) (x : Site) (name : Name) (w : Write) :
    (step now x (.writing name w)).1.manager = x.manager ∧
      (∀ r, (step now x (.writing name w)).2 ≠ .preparing r) ∧
      ∀ o, (step now x (.writing name w)).2.record? = some o → o = w.record := by
  have h := step_writing now x name w
  generalize step now x (.writing name w) = z at h
  cases h with
  | on hm _ hw =>
    refine ⟨hm, ?_, ?_⟩
    · intro r he
      cases he
    · intro o ho
      cases ho
      exact hw
  | failed hm _ =>
    refine ⟨hm, ?_, ?_⟩
    · intro r he
      cases he
    · intro o ho
      cases ho
  | saved hm _ =>
    refine ⟨hm, ?_, ?_⟩
    · intro r he
      cases he
    · intro o ho
      cases ho

end UpdateStage

/-- An update that is past its first part, with the record that it found in the cache. -/
structure Undertaking where
  request : UpdateRequest
  found : Option Object
  stage : UpdateStage

namespace Undertaking

/-- The owners of the record that the update writes. -/
def owners (u : Undertaking) : Option (List OwnerReference) :=
  match u.found with
  | some c => c.metadata.ownerReferences
  | none => u.request.resource.ownerReference.toOption.map fun ref => [ref]

end Undertaking

/-- Updates of one manager, and which of them created what is stored under a name. -/
structure Registry where
  site : Site
  undertakings : List Undertaking
  creator : Name → Option Nat

/-- What can happen next. -/
inductive RegistryEvent
  /-- An update does its first part. -/
  | update (r : UpdateRequest) (now : Time)
  /-- An update takes its next step. -/
  | go (i : Nat) (now : Time)
  /-- A tracker, of the resources that it sees, takes a change. -/
  | track (federated : ObjectCache) (t : Tracker)
  | delete (resource : Name)
  | load (listed : List Object)
  | meddle (m : Meddling)

namespace Registry

def new (x : Site) : Registry := ⟨x, [], fun _ => none⟩

def withManager (s : Registry) (m : VersionManager) : Registry :=
  { s with site := ⟨m, s.site.store⟩ }

/-- The update is known to have created what is stored under a name until others change it. -/
def step (s : Registry) : RegistryEvent → Registry
  | .update r now =>
    let (x, stage) := UpdateStage.step now s.site (.preparing r)
    { s with
      site := x
      undertakings := s.undertakings ++ [⟨r, s.site.cached? (s.site.key r), stage⟩] }
  | .go i now =>
    match s.undertakings[i]? with
    | none => s
    | some u =>
      let (x, stage) := UpdateStage.step now s.site u.stage
      { site := x
        undertakings := s.undertakings.set i { u with stage := stage }
        creator := match u.stage.created? stage with
          | some name => fun n => if name = n then some i else s.creator n
          | none => s.creator }
  | .track federated t => s.withManager (t.step s.site.manager federated).1
  | .delete resource => s.withManager (s.site.manager.delete resource)
  | .load listed => s.withManager (s.site.manager.load listed)
  | .meddle m =>
    let store := s.site.store.meddle m
    { s with
      site := ⟨s.site.manager, store⟩
      creator := fun n =>
        if store.find? s.site.kind n = s.site.stored? n then s.creator n else none }

def run (s : Registry) (events : List RegistryEvent) : Registry := events.foldl step s

end Registry

/-- The first part of an update leaves the store alone, and a record to write that belongs to the
owners of the update. -/
theorem UpdateStage.step_preparing_owners (now : Time) (x : Site) (r : UpdateRequest) :
    (step now x (.preparing r)).1.manager.setup = x.manager.setup ∧
      (step now x (.preparing r)).1.store = x.store ∧
      (∀ r', (step now x (.preparing r)).2 ≠ .preparing r') ∧
      ∀ o stage, (step now x (.preparing r)).2.record? = some o →
        o.metadata.ownerReferences = Undertaking.owners ⟨r, x.cached? (x.key r), stage⟩ := by
  have h := step_preparing now x r
  generalize step now x (.preparing r) = z at h
  cases h with
  | refused _ =>
    refine ⟨rfl, rfl, ?_, ?_⟩
    · intro r' he
      cases he
    · intro o stage ho
      cases ho
  | idle _ =>
    refine ⟨rfl, rfl, ?_, ?_⟩
    · intro r' he
      cases he
    · intro o stage ho
      cases ho
  | changed hp =>
    refine ⟨rfl, rfl, ?_, ?_⟩
    · intro r' he
      cases he
    · intro o stage ho
      cases ho
      unfold Undertaking.owners
      rcases VersionManager.owners_prepare hp with ⟨c, hc, ho⟩ | ⟨hc, ref, href, ho⟩
      · have hfound : x.cached? (x.key r) = some c := hc
        rw [ho, hfound]
      · have hfound : x.cached? (x.key r) = none := hc
        rw [ho, hfound, href]
        rfl

/-- What is stored belongs to the owners of the update that created it. -/
structure Registered (s : Registry) : Prop where
  begun : ∀ u ∈ s.undertakings, ∀ r, u.stage ≠ .preparing r
  written : ∀ u ∈ s.undertakings, ∀ o, u.stage.record? = some o →
    o.metadata.ownerReferences = u.owners
  credited : ∀ n i, s.creator n = some i →
    ∃ u, s.undertakings[i]? = some u ∧ s.site.owners? n = some u.owners

namespace Registered

variable {s : Registry}

theorem new (x : Site) : Registered (.new x) := by
  refine ⟨?_, ?_, ?_⟩
  · intro u hu
    cases hu
  · intro u hu
    cases hu
  · intro n i hi
    cases hi

theorem owners?_congr {x y : Site} (hm : y.manager.setup = x.manager.setup)
    (hs : y.store = x.store) (n : Name) : y.owners? n = x.owners? n := by
  rw [Site.owners?, Site.stored?, Site.kind_congr hm, hs]
  rfl

theorem withManager (h : Registered s) {m : VersionManager} (hm : m.setup = s.site.manager.setup) :
    Registered (s.withManager m) := by
  refine ⟨h.begun, h.written, ?_⟩
  intro n i hi
  obtain ⟨u, hu, ho⟩ := h.credited n i hi
  refine ⟨u, hu, ?_⟩
  have hsame : (s.withManager m).site.owners? n = s.site.owners? n :=
    owners?_congr (x := s.site) (y := (s.withManager m).site) hm rfl n
  rw [hsame]
  exact ho

theorem update (h : Registered s) (r : UpdateRequest) (now : Time) :
    Registered (s.step (.update r now)) := by
  obtain ⟨hm, hs, hstage, howners⟩ := UpdateStage.step_preparing_owners now s.site r
  refine ⟨?_, ?_, ?_⟩
  · intro u hu
    rcases List.mem_append.mp hu with hu | hu
    · exact h.begun u hu
    · rw [List.mem_singleton.mp hu]
      exact hstage
  · intro u hu o ho
    rcases List.mem_append.mp hu with hu | hu
    · exact h.written u hu o ho
    · rw [List.mem_singleton.mp hu] at ho ⊢
      exact howners o _ ho
  · intro n i hi
    obtain ⟨u, hu, ho⟩ := h.credited n i hi
    refine ⟨u, ?_, (owners?_congr hm hs n).trans ho⟩
    exact (List.getElem?_append_left (List.getElem?_eq_some_iff.mp hu).1).trans hu

/-- An update changes its stage; it may have created its record. -/
theorem set (h : Registered s) {i : Nat} {u : Undertaking} (hu : s.undertakings[i]? = some u)
    {x : Site} {stage : UpdateStage} {creator : Name → Option Nat}
    (hbegun : ∀ r, stage ≠ .preparing r)
    (hwritten : ∀ o, stage.record? = some o → o.metadata.ownerReferences = u.owners)
    (hcredited : ∀ n j, creator n = some j →
      j = i ∧ x.owners? n = some u.owners ∨ s.creator n = some j ∧ x.owners? n = s.site.owners? n) :
    Registered ⟨x, s.undertakings.set i { u with stage := stage }, creator⟩ := by
  have hlt : i < s.undertakings.length := (List.getElem?_eq_some_iff.mp hu).1
  refine ⟨?_, ?_, ?_⟩
  · intro v hv
    rcases List.mem_or_eq_of_mem_set hv with hv | hv
    · exact h.begun v hv
    · rw [hv]
      exact hbegun
  · intro v hv o ho
    rcases List.mem_or_eq_of_mem_set hv with hv | hv
    · exact h.written v hv o ho
    · rw [hv] at ho ⊢
      exact hwritten o ho
  · intro n j hj
    rcases hcredited n j hj with ⟨rfl, ho⟩ | ⟨hold, ho⟩
    · exact ⟨_, List.getElem?_set_self hlt, ho⟩
    · obtain ⟨v, hv, hvo⟩ := h.credited n j hold
      by_cases hij : i = j
      · subst hij
        rw [hu] at hv
        cases hv
        exact ⟨_, List.getElem?_set_self hlt, ho.trans hvo⟩
      · refine ⟨v, ?_, ho.trans hvo⟩
        rw [List.getElem?_set_ne hij]
        exact hv

theorem go_writing (h : Registered s) {i : Nat} {u : Undertaking}
    (hu : s.undertakings[i]? = some u) (now : Time) {name : Name} {w : Write}
    (hw : u.stage = .writing name w) : Registered (s.step (.go i now)) := by
  obtain ⟨hm, hbegun, hrecord⟩ := UpdateStage.step_record now s.site name w
  have hcredit := UpdateStage.step_credited now s.site name w
  have howners : w.record.metadata.ownerReferences = u.owners :=
    h.written u (List.mem_of_getElem? hu) _ (by rw [hw]; rfl)
  unfold Registry.step
  simp only [hu, hw]
  generalize UpdateStage.step now s.site (.writing name w) = z at hm hbegun hrecord hcredit ⊢
  refine h.set hu hbegun ?_ ?_
  · intro o ho
    rw [hrecord o ho]
    exact howners
  · generalize UpdateStage.created? (.writing name w) z.2 = made at hcredit ⊢
    intro n j hj
    cases hcredit with
    | kept ho => exact Or.inr ⟨hj, ho n⟩
    | created ho =>
      dsimp only at hj
      rw [ho n]
      split at hj
      · rename_i hn
        cases hj
        refine Or.inl ⟨rfl, ?_⟩
        rw [if_pos hn, howners]
      · rename_i hn
        exact Or.inr ⟨hj, if_neg hn⟩

theorem go (h : Registered s) (i : Nat) (now : Time) : Registered (s.step (.go i now)) := by
  cases hu : s.undertakings[i]? with
  | none =>
    simp only [Registry.step, hu]
    exact h
  | some u =>
    cases hw : u.stage with
    | preparing r => exact absurd hw (h.begun u (List.mem_of_getElem? hu) r)
    | writing name w => exact h.go_writing hu now hw
    | adopting name version =>
      unfold Registry.step
      simp only [hu, hw]
      refine h.set hu (fun r he => by cases he) (fun o ho => by cases ho) ?_
      intro n j hj
      refine Or.inr ⟨hj, ?_⟩
      apply owners?_congr
      · exact VersionManager.setup_adopt name version
      · rfl
    | finished result =>
      unfold Registry.step
      simp only [hu, hw]
      refine h.set hu (fun r he => by cases he) (fun o ho => by cases ho) ?_
      intro n j hj
      exact Or.inr ⟨hj, rfl⟩

theorem step (h : Registered s) (e : RegistryEvent) : Registered (s.step e) := by
  cases e with
  | update r now => exact h.update r now
  | go i now => exact h.go i now
  | track federated t =>
    rcases t.step_cases s.site.manager federated with he | ⟨n, he⟩
    · refine h.withManager ?_
      rw [he]
    · refine h.withManager ?_
      rw [he, VersionManager.setup_delete]
  | delete resource => exact h.withManager rfl
  | load listed => exact h.withManager rfl
  | meddle m =>
    refine ⟨h.begun, h.written, ?_⟩
    intro n i hi
    simp only [Registry.step] at hi
    split at hi
    · rename_i hsame
      obtain ⟨u, hu, ho⟩ := h.credited n i hi
      refine ⟨u, hu, ?_⟩
      rw [← ho]
      exact congrArg _ hsame
    · cases hi

theorem run (h : Registered s) (events : List RegistryEvent) : Registered (s.run events) := by
  induction events generalizing s with
  | nil => exact h
  | cons e rest ih => exact ih (h.step e)

end Registered

/-- No event brings another owner for the record of resource `n`: no update is of a resource of this
name that refers to itself in another way, and no such record is loaded. -/
def RegistryEvent.Faithful (m : VersionManager) (n : Name) (ref : OwnerReference) :
    RegistryEvent → Prop
  | .update r _ => r.resource.name = n → r.resource.ownerReference = .ok ref
  | .load listed =>
    ∀ o ∈ listed, o.name = m.recordName n → o.metadata.ownerReferences = some [ref]
  | _ => True

/-- A cached record that belongs to one owner only, if there is one. -/
def Site.OwnedBy (x : Site) (n : Name) (ref : OwnerReference) : Prop :=
  ∀ c, x.cached? (x.manager.recordName n) = some c → c.metadata.ownerReferences = some [ref]

/-- All records of resource `n`, cached or found by an update, belong to the one owner. -/
structure Faithful (m : VersionManager) (n : Name) (ref : OwnerReference) (s : Registry) :
    Prop where
  setup : s.site.manager.setup = m.setup
  cached : s.site.OwnedBy n ref
  found : ∀ u ∈ s.undertakings, u.request.resource.name = n →
    ∀ c, u.found = some c → c.metadata.ownerReferences = some [ref]

namespace Faithful

variable {m : VersionManager} {n : Name} {ref : OwnerReference} {s : Registry}

theorem withManager (h : Faithful m n ref s) {m' : VersionManager}
    (hm : m'.setup = s.site.manager.setup)
    (hc : ∀ c, m'.records.find? (m.recordName n) = some c →
      c.metadata.ownerReferences = some [ref]) : Faithful m n ref (s.withManager m') := by
  refine ⟨hm.trans h.setup, ?_, h.found⟩
  intro c hcached
  apply hc
  rw [← VersionManager.recordName_congr (hm.trans h.setup)]
  exact hcached

/-- What is cached for the resource before. -/
theorem owners (h : Faithful m n ref s) {c : Object}
    (hc : s.site.manager.records.find? (m.recordName n) = some c) :
    c.metadata.ownerReferences = some [ref] := by
  apply h.cached
  rw [VersionManager.recordName_congr h.setup]
  exact hc

theorem prepare (h : Faithful m n ref s) {r : UpdateRequest} {now : Time}
    (hr : r.resource.name = n → r.resource.ownerReference = .ok ref) :
    (UpdateStage.step now s.site (.preparing r)).1.OwnedBy n ref := by
  have hb := UpdateStage.step_preparing now s.site r
  generalize UpdateStage.step now s.site (.preparing r) = z at hb
  cases hb with
  | refused _ => exact h.cached
  | idle _ => exact h.cached
  | @changed w hp =>
    intro c hc
    have hkey : (s.site.manager.cache (s.site.key r) w.record).recordName n =
        s.site.manager.recordName n := VersionManager.recordName_congr rfl n
    rw [Site.cached?, hkey, VersionManager.find?_cache] at hc
    split at hc
    · rename_i he
      cases hc
      have hn : r.resource.name = n := s.site.manager.recordName_injective he
      rcases VersionManager.owners_prepare hp with ⟨c, hfound, ho⟩ | ⟨-, own, hown, ho⟩
      · rw [ho]
        apply h.cached
        rw [← hn]
        exact hfound
      · rw [hr hn] at hown
        cases hown
        exact ho
    · exact h.cached c hc

theorem update (h : Faithful m n ref s) {r : UpdateRequest} {now : Time}
    (hr : r.resource.name = n → r.resource.ownerReference = .ok ref) :
    Faithful m n ref (s.step (.update r now)) := by
  obtain ⟨hm, -, -, -⟩ := UpdateStage.step_preparing_owners now s.site r
  refine ⟨hm.trans h.setup, h.prepare hr, ?_⟩
  intro u hu hn c hc
  rcases List.mem_append.mp hu with hu | hu
  · exact h.found u hu hn c hc
  · rw [List.mem_singleton.mp hu] at hn hc
    apply h.cached
    rw [← hn]
    exact hc

theorem set (h : Faithful m n ref s) {i : Nat} {u : Undertaking}
    (hu : s.undertakings[i]? = some u) {x : Site} {stage : UpdateStage}
    {creator : Name → Option Nat} (hm : x.manager.setup = s.site.manager.setup)
    (hc : ∀ c, x.manager.records.find? (m.recordName n) = some c →
      c.metadata.ownerReferences = some [ref]) :
    Faithful m n ref ⟨x, s.undertakings.set i { u with stage := stage }, creator⟩ := by
  refine ⟨hm.trans h.setup, (h.withManager hm hc).cached, ?_⟩
  intro v hv hn
  rcases List.mem_or_eq_of_mem_set hv with hv | hv
  · exact h.found v hv hn
  · rw [hv] at hn ⊢
    exact h.found u (List.mem_of_getElem? hu) hn

/-- A written record keeps its owners when it takes its version. -/
theorem adopt (h : Faithful m n ref s) {name : Name} {version : Option String} {c : Object}
    (hc : (s.site.manager.adopt name version).records.find? (m.recordName n) = some c) :
    c.metadata.ownerReferences = some [ref] := by
  rw [VersionManager.find?_adopt] at hc
  split at hc
  · obtain ⟨c', hc', rfl⟩ := Option.map_eq_some_iff.mp hc
    show c'.metadata.ownerReferences = some [ref]
    exact h.owners hc'
  · exact h.owners hc

theorem go (h : Faithful m n ref s) (hs : Registered s) (i : Nat) (now : Time) :
    Faithful m n ref (s.step (.go i now)) := by
  unfold Registry.step
  dsimp only
  cases hu : s.undertakings[i]? with
  | none => exact h
  | some u =>
    cases hw : u.stage with
    | preparing r => exact absurd hw (hs.begun u (List.mem_of_getElem? hu) r)
    | writing name w =>
      obtain ⟨hm, -, -⟩ := UpdateStage.step_record now s.site name w
      simp only [hw]
      refine h.set hu (by rw [hm]) ?_
      intro c hc
      rw [hm] at hc
      exact h.owners hc
    | adopting name version =>
      simp only [hw]
      exact h.set hu (VersionManager.setup_adopt name version) fun c hc => h.adopt hc
    | finished result =>
      simp only [hw]
      exact h.set hu rfl fun c hc => h.owners hc

theorem delete (h : Faithful m n ref s) (resource : Name) :
    Faithful m n ref (s.withManager (s.site.manager.delete resource)) := by
  refine h.withManager (VersionManager.setup_delete resource) ?_
  intro c hc
  rw [VersionManager.find?_delete] at hc
  split at hc
  · cases hc
  · exact h.owners hc

theorem load (h : Faithful m n ref s) {listed : List Object}
    (hl : ∀ o ∈ listed, o.name = m.recordName n → o.metadata.ownerReferences = some [ref]) :
    Faithful m n ref (s.withManager (s.site.manager.load listed)) := by
  refine h.withManager (VersionManager.setup_load listed) ?_
  intro c hc
  rw [VersionManager.find?_load] at hc
  rcases Option.or_eq_some_iff.mp hc with hlast | ⟨-, hold⟩
  · have hmem := List.mem_of_getLast? hlast
    simp only [List.mem_filter, decide_eq_true_eq] at hmem
    exact hl c hmem.1 hmem.2.2
  · exact h.owners hold

theorem step (h : Faithful m n ref s) (hs : Registered s) {e : RegistryEvent}
    (he : e.Faithful m n ref) : Faithful m n ref (s.step e) := by
  cases e with
  | update r now => exact h.update he
  | go i now => exact h.go hs i now
  | track federated t =>
    rcases t.step_cases s.site.manager federated with ht | ⟨resource, ht⟩
    · simp only [Registry.step, ht]
      exact h
    · simp only [Registry.step, ht]
      exact h.delete resource
  | delete resource => exact h.delete resource
  | load listed => exact h.load he
  | meddle _ => exact ⟨h.setup, h.cached, h.found⟩

theorem run (h : Faithful m n ref s) (hs : Registered s) {events : List RegistryEvent}
    (he : ∀ e ∈ events, e.Faithful m n ref) : Faithful m n ref (s.run events) := by
  induction events generalizing s with
  | nil => exact h
  | cons e rest ih =>
    have hstep := h.step hs (he e List.mem_cons_self)
    exact ih hstep (hs.step e) fun e' he' => he e' (List.mem_cons_of_mem _ he')

end Faithful

/-- A stored record belongs to the resource of the update that created it, and to nothing else,
exactly if the update found no record in the cache or one that belonged to this resource alone; so
it does if, in the whole run, the resource was not replaced by another one of its name. -/
theorem owners_of_created {x : Site} {events : List RegistryEvent} {s : Registry}
    (hs : (Registry.new x).run events = s) {n : Name} {i : Nat} (hi : s.creator n = some i) :
    ∃ u o, s.undertakings[i]? = some u ∧ s.site.stored? n = some o ∧
      ∀ ref, u.request.resource.ownerReference = .ok ref →
        (o.metadata.ownerReferences = some [ref] ↔
          ∀ c, u.found = some c → c.metadata.ownerReferences = some [ref]) ∧
        (x.OwnedBy u.request.resource.name ref →
          (∀ e ∈ events, e.Faithful x.manager u.request.resource.name ref) →
          o.metadata.ownerReferences = some [ref]) := by
  subst hs
  have hreg : Registered ((Registry.new x).run events) := (Registered.new x).run events
  obtain ⟨u, hu, hstored⟩ := hreg.credited n i hi
  obtain ⟨o, ho, howners⟩ := Option.map_eq_some_iff.mp hstored
  refine ⟨u, o, hu, ho, ?_⟩
  intro ref href
  have hiff : o.metadata.ownerReferences = some [ref] ↔
      ∀ c, u.found = some c → c.metadata.ownerReferences = some [ref] := by
    rw [howners, Undertaking.owners]
    cases hf : u.found with
    | none => simp [href, Except.toOption]
    | some c => simp
  refine ⟨hiff, ?_⟩
  intro hx hevents
  have hnew : Faithful x.manager u.request.resource.name ref (.new x) :=
    ⟨rfl, hx, fun v hv => by cases hv⟩
  have hfaithful := hnew.run (Registered.new x) hevents
  exact hiff.mpr (hfaithful.found u (List.mem_of_getElem? hu) rfl)

namespace Sample

/-- The resource of the same name that comes after the first one. -/
def successor : Object :=
  { resource with metadata := { resource.metadata with uid := some "web-uid-2" } }

/-- The resource is replaced while its record is cached, and the stored record goes with the first
one; the tracker sees that there is a resource of the name. -/
def replacing : List RegistryEvent :=
  [.update (request "1") 0, .go 0 0, .go 0 0, .go 0 0,
    .track (ObjectCache.empty.put successor) ⟨[resource.name], false, none⟩,
    .meddle (.remove (RecordType.resource ⟨true⟩).toKind ⟨"apps", "deployment-web"⟩),
    .update ⟨successor, ["c1"], Table.ofList [("c1", "2")]⟩ 0, .go 1 0, .go 1 100, .go 1 100,
    .go 1 100, .go 1 100]

def replaced : Registry := (Registry.new start).run replacing

end Sample

/-- The second update returns ok, and the record that it created belongs to the first resource. -/
theorem owners_of_created_sample :
    Sample.replaced.undertakings.map (·.stage.succeeded) = [true, true] ∧
    ∃ o, Sample.replaced.site.stored? ⟨"apps", "deployment-web"⟩ = some o ∧
      ∀ ref, Sample.successor.ownerReference = .ok ref →
        o.metadata.ownerReferences ≠ some [ref] := by
  have hrun : Sample.replaced.creator ⟨"apps", "deployment-web"⟩ = some 1 ∧
      Sample.replaced.undertakings.map (·.stage.succeeded) = [true, true] ∧
      (Sample.replaced.undertakings[1]?.map fun u =>
        (u.request.resource, u.found.map (·.metadata.ownerReferences))) =
        some (Sample.successor, some (Sample.resource.ownerReference.toOption.map ([·]))) := by
    decide +kernel
  obtain ⟨hi, hok, hsecond⟩ := hrun
  have hother : Sample.successor.ownerReference.toOption ≠
      Sample.resource.ownerReference.toOption := by decide +kernel
  obtain ⟨u, o, hu, ho, howner⟩ := owners_of_created (s := Sample.replaced) rfl hi
  refine ⟨hok, o, ho, ?_⟩
  intro ref href hown
  rw [hu, Option.map_some, Option.some.injEq, Prod.mk.injEq] at hsecond
  obtain ⟨hresource, hfound⟩ := hsecond
  obtain ⟨c, hc, howners⟩ := Option.map_eq_some_iff.mp hfound
  have hsame := ((howner ref (by rw [hresource]; exact href)).1.mp hown) c hc
  rw [howners] at hsame
  apply hother
  rw [href]
  cases hr : Sample.resource.ownerReference with
  | error e =>
    rw [hr] at hsame
    cases hsame
  | ok first =>
    rw [hr] at hsame
    cases hsame
    rfl

end FedTrack
