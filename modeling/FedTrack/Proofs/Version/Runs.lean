import FedTrack.Proofs.Version.Update

namespace FedTrack

/-- A call of a manager that has ended. Of an update it also tells the record that was to be
written, if anything was, and the result. -/
inductive Entry
  | update (r : UpdateRequest) (record : Option Object) (result : Except VersionError Unit)
  | get (resource : Object)
  | delete (resource : Name)

/-- Updates did not fail. -/
def Entry.Succeeded : Entry → Prop
  | .update _ _ result => result = .ok ()
  | _ => True

/-- A resource that the call is about. -/
def Entry.resource : Entry → Name
  | .update r _ _ => r.resource.name
  | .get o => o.name
  | .delete n => n

/-- Calls of one manager, each made when the one before it has ended, with faults queued at any
point. -/
inductive Runs (x : Site) : List Entry → Site → Prop
  | start : Runs x [] x
  | fault {l : List Entry} {y : Site} (op : Operation) (f : Fault) :
      Runs x l y → Runs x l (y.failNext op f)
  | update {l : List Entry} {y z : Site} {r : UpdateRequest} {result : Except VersionError Unit} :
      Runs x l y → UpdateRun y r result z →
        Runs x (l ++ [.update r (y.manager.recordToWrite? r) result]) z
  | get {l : List Entry} {y : Site} (resource : Object) :
      Runs x l y → Runs x (l ++ [.get resource]) y
  | delete {l : List Entry} {y : Site} (n : Name) :
      Runs x l y → Runs x (l ++ [.delete n]) ⟨y.manager.delete n, y.store⟩

namespace Runs

variable {x y : Site} {l : List Entry}

theorem setup (h : Runs x l y) : y.manager.setup = x.manager.setup := by
  induction h with
  | start => rfl
  | fault op f _ ih => exact ih
  | update _ hu ih => exact hu.updated.setup.trans ih
  | get resource _ ih => exact ih
  | delete n _ ih => exact ih

theorem recordName (h : Runs x l y) (n : Name) : y.manager.recordName n = x.manager.recordName n :=
  VersionManager.recordName_congr h.setup n

theorem filed (h : Runs x l y) (hx : x.store.Filed) : y.store.Filed := by
  induction h with
  | start => exact hx
  | fault op f _ ih => exact MemoryStore.filed_congr (MemoryStore.objects_failNext _ op f) ih
  | update _ hu ih => exact hu.filed ih
  | get resource _ ih => exact ih
  | delete n _ ih => exact ih

end Runs

theorem SyncRun.setup {x y : Site} (h : SyncRun x y) : y.manager.setup = x.manager.setup := by
  rw [h.syncing.2, VersionManager.setup_load]

theorem SyncRun.kind {x y : Site} (h : SyncRun x y) : y.kind = x.kind := Site.kind_congr h.setup

theorem SyncRun.filed {x y : Site} (h : SyncRun x y) (hx : x.store.Filed) : y.store.Filed :=
  MemoryStore.filed_congr h.syncing.1 hx

theorem SyncRun.stored? {x y : Site} (h : SyncRun x y) (name : Name) :
    y.stored? name = x.stored? name := by
  rw [Site.stored?, Site.stored?, h.kind, MemoryStore.find?_congr h.syncing.1]

/-! A resource without recorded versions, beside one whose record is stored already. -/

namespace Sample

def resource : Object :=
  { types := some ⟨"types.kubefed.io/v1beta1", "FederatedDeployment"⟩
    metadata := { Metadata.empty with
      name := some "web"
      scope := some "apps"
      uid := some "web-uid" }
    data := .object [("spec", .object [("template", .object [("replicas", .string "1")])])] }

def record : Object :=
  RecordType.newRecord ⟨true⟩ ⟨"apps", "deployment-db"⟩
    ⟨"types.kubefed.io/v1beta1", "FederatedDeployment", "db", "db-uid", none, none⟩
    (.of "t" "" [⟨"c1", "7"⟩])

/-- A new manager. -/
def start : Site :=
  ⟨.new true "FederatedDeployment" "Deployment" none,
    (MemoryStore.empty.insert (RecordType.resource ⟨true⟩).toKind record).1⟩

def synced : Site := (Site.course SyncStage.step [.go 0] (start, .listing)).1

def request (version : String) : UpdateRequest := ⟨resource, ["c1"], Table.ofList [("c1", version)]⟩

/-- An update in as many steps, of which each takes place at once. -/
def update (x : Site) (version : String) (steps : Nat) : Site × UpdateStage :=
  Site.course UpdateStage.step (List.replicate steps (.go 0)) (x, .preparing (request version))

theorem filed_start : start.store.Filed :=
  (MemoryStore.Reached.insert (RecordType.resource ⟨true⟩).toKind record .empty).filed

theorem sync : SyncRun start synced := ⟨[.go 0], rfl⟩

/-- The record is made, created, given its status and taken note of. -/
theorem update_synced : UpdateRun synced (request "1") (.ok ()) (update synced "1" 4).1 :=
  ⟨List.replicate 4 (.go 0), rfl⟩

theorem readable_start (name : Name) (o : Object) (h : start.stored? name = some o) :
    ∃ s, RecordType.status? o = some s ∧ s.Distinct := by
  have hput : start.store.objects = Table.empty.insert
      ((RecordType.resource ⟨true⟩).toKind, record.name) (MemoryStore.empty.stampNew record).2 := by
    simp [start, MemoryStore.insert, MemoryStore.put, MemoryStore.empty]
  have hfind := MemoryStore.find?_of_insert (s := MemoryStore.empty) hput start.kind name
  rw [Site.stored?, hfind] at h
  split at h
  · cases h
    refine ⟨.of "t" "" [⟨"c1", "7"⟩], ?_, by decide +kernel⟩
    rw [RecordType.status?_congr (congrArg (Json.member? · "status")
      (MemoryStore.data_stampNew MemoryStore.empty record))]
    exact RecordType.status?_newRecord _ _ _ _
  · cases h

end Sample

end FedTrack
