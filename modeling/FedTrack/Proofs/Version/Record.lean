import FedTrack.Proofs.Json.Member
import FedTrack.Proofs.Version.Status
import FedTrack.Version.Record

namespace FedTrack

namespace Object

@[simp] theorem name_setResourceVersion (o : Object) (v : Option String) :
    (o.setResourceVersion v).name = o.name := rfl

end Object

namespace RecordType

/-- Two records whose data has the same status have the same status, or both have none that can
be read. -/
theorem status?_congr {o p : Object} (h : o.data.member? "status" = p.data.member? "status") :
    status? o = status? p := by
  simp only [status?, h]

/-- An absent status counts as null. -/
theorem status?_withNull {o p : Object}
    (h : o.data.member? "status" = some ((p.data.member? "status").getD .null)) :
    status? o = status? p := by
  simp only [status?, h]
  cases p.data.member? "status" <;> rfl

@[simp] theorem status?_setResourceVersion (o : Object) (v : Option String) :
    status? (o.setResourceVersion v) = status? o := rfl

/-- Null is no status that reads as one. -/
theorem status?_of_ofJson? {o : Object} {s : VersionStatus} {j : Json}
    (h : o.data.member? "status" = some j) (hj : VersionStatus.ofJson? j = some s) :
    status? o = some s := by
  simp only [status?, h]
  cases j with
  | null => cases hj
  | _ => exact hj

theorem status?_of_member {o : Object} {s : VersionStatus}
    (h : o.data.member? "status" = some s.toJson) : status? o = some s :=
  status?_of_ofJson? h s.ofJson?_toJson

@[simp] theorem status?_setStatus (o : Object) (s : VersionStatus) :
    status? (setStatus o s) = some s :=
  status?_of_member (by simp [setStatus])

@[simp] theorem status?_newRecord (r : RecordType) (name : Name) (owner : OwnerReference)
    (s : VersionStatus) : status? (r.newRecord name owner s) = some s :=
  status?_of_member (by simp [newRecord, Json.member?, Assoc.find?])

theorem status?_without {o : Object} (h : o.data.member? "status" = none) :
    status? o = some .empty := by
  simp only [status?, h]

@[simp] theorem name_setStatus (o : Object) (s : VersionStatus) : (setStatus o s).name = o.name :=
  rfl

/-- What counts of a record: its name and its status. -/
def face (o : Object) : Name × Option VersionStatus := (o.name, status? o)

theorem face_eq {o p : Object} : face o = face p ↔ o.name = p.name ∧ status? o = status? p := by
  simp [face]

/-- Both can be read, and they say the same. -/
def sameStatus (o p : Object) : Bool :=
  match status? o, status? p with
  | some s, some t => s.equivalent t
  | _, _ => false

theorem sameStatus_congr {o o' p p' : Object} (ho : status? o = status? o')
    (hp : status? p = status? p') : sameStatus o p = sameStatus o' p' := by
  simp only [sameStatus, ho, hp]

theorem sameStatus_of_eq {o p : Object} {s : VersionStatus} (ho : status? o = some s)
    (hp : status? p = some s) : sameStatus o p = true := by
  simp only [sameStatus, ho, hp, s.equivalent_refl]

/-- A status that belongs to a template is not that of a record just created. -/
theorem sameStatus_created {o p : Object} {s : VersionStatus} (ho : status? o = some s)
    (ht : s.template ≠ "") (hp : status? p = some .empty) : sameStatus o p = false := by
  simp only [sameStatus, ho, hp]
  apply Bool.eq_false_iff.mpr
  intro he
  exact ht (VersionStatus.equivalent_iff.mp he).1

/-- The name a new record is stored under: records of the whole cluster have no namespace. -/
def ownName (r : RecordType) (name : Name) : Name :=
  ⟨if r.namespaced then name.scope else "", name.name⟩

@[simp] theorem name_newRecord (r : RecordType) (name : Name) (owner : OwnerReference)
    (s : VersionStatus) : (r.newRecord name owner s).name = r.ownName name := by
  cases hn : r.namespaced with
  | false => simp [newRecord, Object.name, Object.anyName, ownName, hn, Metadata.empty]
  | true =>
    by_cases hs : name.scope = ""
    · simp [newRecord, Object.name, Object.anyName, ownName, hn, Metadata.empty, Name.scope?, hs]
    · simp [newRecord, Object.name, Object.anyName, ownName, hn, Metadata.empty, Name.scope?, hs]

theorem ownName_of_namespaced {r : RecordType} (h : r.namespaced = true) (name : Name) :
    r.ownName name = name := by
  simp [ownName, h]

end RecordType

end FedTrack
