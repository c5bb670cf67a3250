import FedTrack.Proofs.Version.Merge

namespace FedTrack

theorem Sha256.hexDigest_ne_empty (s : String) : hexDigest s ≠ "" := by
  intro h
  have hb : ∃ b rest, digest s.toUTF8.toList = b :: rest := ⟨_, _, rfl⟩
  obtain ⟨b, rest, hb⟩ := hb
  have hl := congrArg String.toList h
  rw [hexDigest, hex, hb, String.toList_ofList] at hl
  cases hl

theorem Federated.templateVersion?_ne_empty (o : Object) : templateVersion? o ≠ some "" := by
  unfold templateVersion?
  split
  · exact fun h => by cases h
  · exact fun h => by cases h
  · exact fun h => Sha256.hexDigest_ne_empty _ (Option.some.inj h)

namespace VersionManager

variable {m m' : VersionManager}

/-- What stays the same in a manager: all but its records. -/
def setup (m : VersionManager) : String × Option String × RecordType :=
  (m.targetKind, m.scope, m.recordType)

theorem setup_iff : m'.setup = m.setup ↔
    m'.targetKind = m.targetKind ∧ m'.scope = m.scope ∧ m'.recordType = m.recordType := by
  simp [setup]

theorem recordName_congr (h : m'.setup = m.setup) (n : Name) :
    m'.recordName n = m.recordName n := by
  obtain ⟨hk, -, -⟩ := setup_iff.mp h
  simp only [recordName, hk]

@[simp] theorem scope_recordName (m : VersionManager) (n : Name) :
    (m.recordName n).scope = n.scope := rfl

theorem name_recordName (m : VersionManager) (n : Name) :
    (m.recordName n).name = RecordType.namePrefix m.targetKind ++ n.name := rfl

/-- Different resources have different records. -/
theorem recordName_injective (m : VersionManager) {n n' : Name}
    (h : m.recordName n = m.recordName n') : n = n' := by
  have hs : n.scope = n'.scope := by
    simpa only [scope_recordName] using congrArg Name.scope h
  have hn : RecordType.namePrefix m.targetKind ++ n.name =
      RecordType.namePrefix m.targetKind ++ n'.name := congrArg Name.name h
  have hl := congrArg String.toList hn
  rw [String.toList_append, String.toList_append] at hl
  have he : n.name = n'.name := String.toList_inj.mp (List.append_cancel_left hl)
  cases n
  cases n'
  simp only at hs he
  rw [hs, he]

theorem owns_recordName (m : VersionManager) (n : Name) : m.owns (m.recordName n) = true := by
  simp [owns, name_recordName]

/-- The status of the record cached under `key`; `none` too if it cannot be read. -/
def status? (m : VersionManager) (key : Name) : Option VersionStatus :=
  (m.records.find? key).bind RecordType.status?

/-- What counts of the record cached under `key`. -/
def face? (m : VersionManager) (key : Name) : Option (Name × Option VersionStatus) :=
  (m.records.find? key).map RecordType.face

theorem status?_eq_bind_face? (m : VersionManager) (key : Name) :
    m.status? key = (m.face? key).bind Prod.snd := by
  rw [status?, face?, Option.bind_map]
  rfl

theorem face?_eq_some {key : Name} {f : Name × Option VersionStatus} : m.face? key = some f ↔
    ∃ o, m.records.find? key = some o ∧ RecordType.face o = f :=
  Option.map_eq_some_iff

/-- The name that the record of `key` is stored under: the cached record's own one, or the one
that a new record gets. -/
def ownName (m : VersionManager) (key : Name) : Name :=
  match m.records.find? key with
  | some record => record.name
  | none => m.recordType.ownName key

theorem ownName_eq_face? (m : VersionManager) (key : Name) :
    m.ownName key = ((m.face? key).map Prod.fst).getD (m.recordType.ownName key) := by
  unfold ownName face?
  cases m.records.find? key <;> rfl

theorem ownName_congr {key : Name} (hs : m'.setup = m.setup)
    (hf : m'.face? key = m.face? key) : m'.ownName key = m.ownName key := by
  obtain ⟨-, -, ht⟩ := setup_iff.mp hs
  rw [ownName_eq_face?, ownName_eq_face?, hf, ht]

/-- The status that an update of `r` is to record. -/
def asked? (m : VersionManager) (r : UpdateRequest) : Option VersionStatus :=
  (Federated.templateVersion? r.resource).map fun template =>
    updatedStatus (m.status? (m.recordName r.resource.name)) template
      (Federated.overrideVersion r.resource) r.selected r.versions

/-- A status that is asked for belongs to a template, unlike that of a record just created. -/
theorem template_asked? {r : UpdateRequest} {asked : VersionStatus} (h : m.asked? r = some asked) :
    asked.template ≠ "" := by
  obtain ⟨template, ht, rfl⟩ := Option.map_eq_some_iff.mp h
  intro he
  apply Federated.templateVersion?_ne_empty r.resource
  rw [ht, ← he]
  rfl

/-- The manager with a record put in its cache. -/
def cache (m : VersionManager) (key : Name) (record : Object) : VersionManager :=
  { m with records := m.records.insert key record }

@[simp] theorem setup_cache (key : Name) (record : Object) : (m.cache key record).setup = m.setup :=
  rfl

@[simp] theorem find?_cache (key other : Name) (record : Object) :
    (m.cache key record).records.find? other =
      if key = other then some record else m.records.find? other :=
  Table.find?_insert m.records key record other

theorem face?_cache (key other : Name) (record : Object) : (m.cache key record).face? other =
    if key = other then some (RecordType.face record) else m.face? other := by
  rw [face?, find?_cache]
  split <;> rfl

/-- What the first part of an update comes to. -/
inductive Prepared (m : VersionManager) (r : UpdateRequest) : Prop
  | refused (e : VersionError) (h : m.prepare r = .error e)
  | idle (old asked : VersionStatus) (hasked : m.asked? r = some asked)
      (hold : m.status? (m.recordName r.resource.name) = some old)
      (heq : old.equivalent asked = true) (h : m.prepare r = .ok (m, none))
  | changed (asked : VersionStatus) (record : Object) (hasked : m.asked? r = some asked)
      (hstatus : RecordType.status? record = some asked)
      (hname : record.name = m.ownName (m.recordName r.resource.name))
      (h : m.prepare r = .ok (m.cache (m.recordName r.resource.name) record, some record))

theorem prepared (m : VersionManager) (r : UpdateRequest) : m.Prepared r := by
  cases ht : Federated.templateVersion? r.resource with
  | none => exact .refused (.noTemplate r.resource) (by simp only [prepare, ht])
  | some template =>
    cases hf : m.records.find? (m.recordName r.resource.name) with
    | none =>
      have hs : m.status? (m.recordName r.resource.name) = none := by
        rw [status?, hf]
        rfl
      cases ho : r.resource.ownerReference with
      | error e => exact .refused (.noOwner e) (by simp only [prepare, ht, hf, ho])
      | ok owner =>
        have hasked : m.asked? r = some (updatedStatus none template
            (Federated.overrideVersion r.resource) r.selected r.versions) := by
          rw [asked?, ht, hs]
          rfl
        refine .changed _ (m.recordType.newRecord (m.recordName r.resource.name) owner _) hasked
          (RecordType.status?_newRecord _ _ _ _) ?_ ?_
        · rw [RecordType.name_newRecord, ownName, hf]
        · simp only [prepare, ht, hf, ho]
          rfl
    | some record =>
      cases hs : RecordType.status? record with
      | none => exact .refused (.malformedStatus m.recordType) (by simp only [prepare, ht, hf, hs])
      | some old =>
        have hold : m.status? (m.recordName r.resource.name) = some old := by
          rw [status?, hf]
          exact hs
        have hasked : m.asked? r = some (updatedStatus (some old) template
            (Federated.overrideVersion r.resource) r.selected r.versions) := by
          rw [asked?, ht, hold]
          rfl
        cases he : old.equivalent (updatedStatus (some old) template
            (Federated.overrideVersion r.resource) r.selected r.versions) with
        | true => exact .idle old _ hasked hold he (by simp only [prepare, ht, hf, hs, he, if_true])
        | false =>
          refine .changed _ (RecordType.setStatus record _) hasked
            (RecordType.status?_setStatus _ _) ?_ ?_
          · rw [RecordType.name_setStatus, ownName, hf]
          · simp only [prepare, ht, hf, hs, he]
            rfl

/-- The record that an update is going to write, if it changes anything. -/
def recordToWrite? (m : VersionManager) (r : UpdateRequest) : Option Object :=
  match m.prepare r with
  | .ok (_, record) => record
  | .error _ => none

theorem prepare_none {r : UpdateRequest} (h : m.prepare r = .ok (m', none)) :
    m' = m ∧ ∃ old asked, m.asked? r = some asked ∧
      m.status? (m.recordName r.resource.name) = some old ∧ old.equivalent asked = true := by
  cases m.prepared r with
  | refused e he => cases he.symm.trans h
  | idle old asked hasked hold heq he =>
    cases he.symm.trans h
    exact ⟨rfl, old, asked, hasked, hold, heq⟩
  | changed asked record _ _ _ he =>
    have hr : some record = none := (Prod.mk.inj (Except.ok.inj (he.symm.trans h))).2
    cases hr

theorem prepare_eq_none_iff {r : UpdateRequest} : m.prepare r = .ok (m, none) ↔
    ∃ old asked, m.asked? r = some asked ∧ m.status? (m.recordName r.resource.name) = some old ∧
      old.equivalent asked = true := by
  constructor
  · intro h
    exact (prepare_none h).2
  · rintro ⟨old, asked, hasked, hold, heq⟩
    obtain ⟨record, hf, hs⟩ := Option.bind_eq_some_iff.mp hold
    obtain ⟨template, ht, rfl⟩ := Option.map_eq_some_iff.mp hasked
    rw [hold] at heq
    simp only [prepare, ht, hf, hs, heq, if_true]

theorem prepare_some {r : UpdateRequest} {record : Object}
    (h : m.prepare r = .ok (m', some record)) :
    m' = m.cache (m.recordName r.resource.name) record ∧
      record.name = m.ownName (m.recordName r.resource.name) ∧
      ∃ asked, m.asked? r = some asked ∧ RecordType.status? record = some asked := by
  cases m.prepared r with
  | refused e he => cases he.symm.trans h
  | idle old asked _ _ _ he =>
    have hr : none = some record := (Prod.mk.inj (Except.ok.inj (he.symm.trans h))).2
    cases hr
  | changed asked record hasked hstatus hname he =>
    cases he.symm.trans h
    exact ⟨rfl, hname, asked, hasked, hstatus⟩

theorem status?_recordToWrite? {r : UpdateRequest} {record : Object}
    (h : m.recordToWrite? r = some record) : ∃ s, RecordType.status? record = some s := by
  unfold recordToWrite? at h
  split at h
  · rename_i m' record' hp
    rw [h] at hp
    obtain ⟨-, -, asked, -, hs⟩ := prepare_some hp
    exact ⟨asked, hs⟩
  · cases h

theorem setup_prepare {r : UpdateRequest} {record : Option Object}
    (h : m.prepare r = .ok (m', record)) : m'.setup = m.setup := by
  cases record with
  | none => rw [(prepare_none h).1]
  | some record => rw [(prepare_some h).1, setup_cache]

/-- What a manager answers depends on the status of the cached record alone. -/
theorem get_congr (hs : m'.setup = m.setup)
    {resource : Object} (h : m'.face? (m'.recordName resource.name) =
      m.face? (m.recordName resource.name)) : m'.get resource = m.get resource := by
  obtain ⟨-, -, ht⟩ := setup_iff.mp hs
  unfold get
  cases hf : m.records.find? (m.recordName resource.name) with
  | none =>
    rw [face?, face?, hf, Option.map_none, Option.map_eq_none_iff] at h
    simp only [h]
  | some o =>
    rw [face?, face?, hf, Option.map_some] at h
    obtain ⟨o', ho', he⟩ := Option.map_eq_some_iff.mp h
    obtain ⟨-, hst⟩ := RecordType.face_eq.mp he
    simp only [ho', hst, ht]

/-! What the other operations do to the cached records. -/

@[simp] theorem setup_adopt (key : Name) (version : Option String) :
    (m.adopt key version).setup = m.setup := by
  unfold adopt
  split <;> rfl

theorem find?_adopt (m : VersionManager) (key other : Name) (version : Option String) :
    (m.adopt key version).records.find? other = if key = other then
      (m.records.find? other).map (·.setResourceVersion version) else m.records.find? other := by
  unfold adopt
  by_cases hk : key = other
  · subst hk
    rw [if_pos rfl]
    split
    · rename_i record hf
      simp [hf]
    · rename_i hf
      simp [hf]
  · rw [if_neg hk]
    split
    · simp [hk]
    · rfl

/-- Adopting a resource version changes nothing that counts of any record. -/
theorem face?_adopt (m : VersionManager) (key other : Name) (version : Option String) :
    (m.adopt key version).face? other = m.face? other := by
  simp only [face?, find?_adopt]
  split
  · cases m.records.find? other <;> rfl
  · rfl

theorem status?_adopt (m : VersionManager) (key other : Name) (version : Option String) :
    (m.adopt key version).status? other = m.status? other := by
  rw [status?_eq_bind_face?, status?_eq_bind_face?, face?_adopt]

@[simp] theorem setup_delete (n : Name) : (m.delete n).setup = m.setup := rfl

theorem find?_delete (m : VersionManager) (n key : Name) : (m.delete n).records.find? key =
    if m.recordName n = key then none else m.records.find? key :=
  Table.find?_erase m.records _ _

theorem face?_delete (m : VersionManager) (n key : Name) :
    (m.delete n).face? key = if m.recordName n = key then none else m.face? key := by
  rw [face?, find?_delete]
  split <;> rfl

@[simp] theorem setup_load (listed : List Object) : (m.load listed).setup = m.setup := rfl

/-- Loading takes over a listed record under its own name; of listed records of one name the
last one counts. -/
theorem find?_load (m : VersionManager) (listed : List Object) (key : Name) :
    (m.load listed).records.find? key =
      ((listed.filter fun o => m.owns o.name ∧ o.name = key).getLast?).or
        (m.records.find? key) := by
  exact Table.find?_foldl_insertIf Object.name (fun o => m.owns o.name) listed m.records key

end VersionManager

end FedTrack
