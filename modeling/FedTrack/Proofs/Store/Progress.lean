import FedTrack.Proofs.Store.Effect

namespace FedTrack.MemoryStore

/-- `t` differs from `s` in one object at most. -/
def Put (kind : Kind) (name : Name) (o : Object) (s t : MemoryStore) : Prop :=
  ∀ k n, t.find? k n = if kind = k ∧ name = n then some o else s.find? k n

/-- Nothing has changed, or a record has been created, so far without a status. -/
def Opened (kind : Kind) (name : Name) (s t : MemoryStore) : Prop :=
  (∀ k n, t.find? k n = s.find? k n) ∨
    s.find? kind name = none ∧ ∃ o, RecordType.status? o = some .empty ∧ Put kind name o s t

/-- A record is stored, with the status of `record`. -/
def Saved (kind : Kind) (record : Object) (s t : MemoryStore) : Prop :=
  ∃ o, RecordType.status? o = RecordType.status? record ∧ Put kind record.name o s t

theorem opened_of_objects {s t : MemoryStore} (kind : Kind) (name : Name)
    (h : t.objects = s.objects) : Opened kind name s t :=
  Or.inl (find?_congr h)

theorem Put.trans {kind : Kind} {name : Name} {o p : Object} {s t u : MemoryStore}
    (hst : Put kind name o s t) (htu : Put kind name p t u) : Put kind name p s u := by
  intro k n
  rw [htu k n, hst k n]
  by_cases h : kind = k ∧ name = n
  · rw [if_pos h, if_pos h]
  · rw [if_neg h, if_neg h, if_neg h]

theorem Put.of_eq {kind : Kind} {name : Name} {o : Object} {s t u : MemoryStore}
    (hst : ∀ k n, t.find? k n = s.find? k n) (htu : Put kind name o t u) : Put kind name o s u := by
  intro k n
  rw [htu k n, hst k n]

theorem Put.at {kind : Kind} {name : Name} {o : Object} {s t : MemoryStore}
    (h : Put kind name o s t) : t.find? kind name = some o := by
  rw [h kind name, if_pos ⟨rfl, rfl⟩]

theorem Opened.trans {kind : Kind} {name : Name} {s t u : MemoryStore}
    (hst : Opened kind name s t) (htu : Opened kind name t u) : Opened kind name s u := by
  rcases htu with htu | ⟨hnone, o, ho, htu⟩
  · rcases hst with hst | ⟨hnone, o, ho, hst⟩
    · exact Or.inl fun k n => (htu k n).trans (hst k n)
    · exact Or.inr ⟨hnone, o, ho, fun k n => (htu k n).trans (hst k n)⟩
  · rcases hst with hst | ⟨-, p, -, hst⟩
    · exact Or.inr ⟨(hst kind name).symm.trans hnone, o, ho, htu.of_eq hst⟩
    · -- what has been created cannot be created again
      rw [hst.at] at hnone
      cases hnone

theorem Saved.after {kind : Kind} {record : Object} {s t u : MemoryStore}
    (hst : Opened kind record.name s t) (htu : Saved kind record t u) : Saved kind record s u := by
  obtain ⟨o, ho, htu⟩ := htu
  rcases hst with hst | ⟨-, p, -, hst⟩
  · exact ⟨o, ho, htu.of_eq hst⟩
  · exact ⟨o, ho, hst.trans htu⟩

theorem Saved.elsewhere {kind : Kind} {record : Object} {s t : MemoryStore}
    (h : Saved kind record s t) {k : Kind} {n : Name} (hn : n ≠ record.name) :
    t.find? k n = s.find? k n := by
  obtain ⟨o, -, h⟩ := h
  rw [h k n, if_neg fun he => hn he.2.symm]

end FedTrack.MemoryStore
