import FedTrack.Proofs.Store.Effect

namespace FedTrack.MemoryStore

theorem resourceVersion_stamp (o : Object) (n : Nat) :
    (o.setResourceVersion (some (toString n))).resourceVersion = some (toString n) := by
  simp [Object.resourceVersion, Object.setResourceVersion]

theorem resourceVersion_stampNew (s : MemoryStore) (o : Object) :
    (s.stampNew o).2.resourceVersion = some (toString s.nextVersion) := by
  have hv := resourceVersion_stamp o s.nextVersion
  unfold stampNew stampUid stampVersion
  dsimp only
  split
  · exact hv
  · exact hv

theorem checkVersion_none {stored incoming : Object} {v : String}
    (h : checkVersion stored incoming = none) (hv : incoming.resourceVersion = some v) :
    stored.metadata.resourceVersion = some v := by
  simp only [checkVersion, hv] at h
  split at h
  · assumption
  · cases h

/-- `p` is `o`, with a uid and a version from a store. -/
structure Stamped (o p : Object) : Prop where
  types : p.types = o.types
  metadata : p.metadata = { o.metadata with
    uid := p.metadata.uid
    resourceVersion := p.metadata.resourceVersion }
  data : p.data = o.data

theorem stamped_stampNew (s : MemoryStore) (o : Object) : Stamped o (s.stampNew o).2 := by
  unfold stampNew stampUid stampVersion
  dsimp only
  split <;> exact ⟨rfl, rfl, rfl⟩

/-- What is created is new, and stored without its status and with a version. -/
theorem perform_create_stamped {s : MemoryStore} {kind : Kind} {o : Object} {a : Answer}
    (h : (s.perform kind (.create o)).2 = .ok a) :
    ∃ p, a = .stored p ∧ Stamped { o with data := o.data.dropMember "status" } p ∧
      p.resourceVersion ≠ none ∧
      ∀ k name, (s.perform kind (.create o)).1.find? k name =
        if kind = k ∧ o.name = name then some p else s.find? k name := by
  rcases s.perform_cases kind (.create o) with ⟨⟨e, he⟩, -⟩ | ⟨t, ho, ht⟩
  · cases he.symm.trans h
  · rw [ht] at h ⊢
    simp only [commit] at h ⊢
    split at h
    · cases h
    · cases h
      refine ⟨_, rfl, stamped_stampNew t _, ?_, fun k name => ?_⟩
      · rw [resourceVersion_stampNew]
        exact nofun
      · rw [← find?_congr ho]
        refine find?_of_insert ?_ k name
        simp [succeed, put]

/-- Whatever is created gets a version. -/
theorem perform_create_ok {s : MemoryStore} {kind : Kind} {o : Object} {a : Answer}
    (h : (s.perform kind (.create o)).2 = .ok a) :
    ∃ p, a = .stored p ∧ p.resourceVersion ≠ none := by
  obtain ⟨p, hp, -, hversion, -⟩ := perform_create_stamped h
  exact ⟨p, hp, hversion⟩

/-- What is created belongs to the owners that it came with, and nothing else changes. -/
theorem perform_create_owners {s : MemoryStore} {kind : Kind} {o : Object} {a : Answer}
    (h : (s.perform kind (.create o)).2 = .ok a) :
    ∃ p : Object, p.metadata.ownerReferences = o.metadata.ownerReferences ∧
      ∀ k name, (s.perform kind (.create o)).1.find? k name =
        if kind = k ∧ o.name = name then some p else s.find? k name := by
  obtain ⟨p, -, hstamped, -, hfind⟩ := perform_create_stamped h
  exact ⟨p, congrArg (·.ownerReferences) hstamped.metadata, hfind⟩

/-- A status update that carries a version meets the object with this version, and changes no more
than its status and version. -/
theorem perform_updateStatus_ok {s : MemoryStore} {kind : Kind} {o : Object} {a : Answer}
    (h : (s.perform kind (.updateStatus o)).2 = .ok a) :
    ∃ (stored : Object) (n : Nat), s.find? kind o.name = some stored ∧
      (∀ v, o.resourceVersion = some v → stored.metadata.resourceVersion = some v) ∧
      a = .stored ((withStatus stored o).setResourceVersion (some (toString n))) ∧
      ∀ k name, (s.perform kind (.updateStatus o)).1.find? k name =
        if kind = k ∧ o.name = name then
          some ((withStatus stored o).setResourceVersion (some (toString n)))
        else s.find? k name := by
  rcases s.perform_cases kind (.updateStatus o) with ⟨⟨e, he⟩, -⟩ | ⟨t, ho, ht⟩
  · cases he.symm.trans h
  · have hfind := find?_congr ho
    rw [ht] at h ⊢
    simp only [commit] at h ⊢
    split at h
    · cases h
    · rename_i stored hf
      split at h
      · cases h
      · rename_i hcheck
        cases h
        refine ⟨stored, t.nextVersion, by rw [← hfind]; exact hf,
          fun v => checkVersion_none hcheck, rfl, fun k name => ?_⟩
        rw [← hfind]
        exact find?_of_insert rfl k name

end FedTrack.MemoryStore
