import FedTrack.Proofs.Version.Record
import FedTrack.Store.Flight

namespace FedTrack.MemoryStore

@[simp] theorem objects_failNext (s : MemoryStore) (op : Operation) (f : Fault) :
    (s.failNext op f).objects = s.objects := rfl

theorem find?_congr {s t : MemoryStore} (h : s.objects = t.objects) (kind : Kind) (name : Name) :
    s.find? kind name = t.find? kind name := by
  simp only [find?, h]

theorem find?_of_insert {s t : MemoryStore} {kind : Kind} {name : Name} {o : Object}
    (h : t.objects = s.objects.insert (kind, name) o) (k : Kind) (n : Name) :
    t.find? k n = if kind = k ∧ name = n then some o else s.find? k n := by
  simp only [find?, h, Table.find?_insert, Prod.mk.injEq]

@[simp] theorem objects_enter (s : MemoryStore) (op : Operation) :
    (s.enter op).1.objects = s.objects := by
  unfold enter
  dsimp only
  split <;> rfl

@[simp] theorem objects_stampNew (s : MemoryStore) (o : Object) :
    (s.stampNew o).1.objects = s.objects := by
  unfold stampNew stampUid stampVersion
  dsimp only
  split <;> rfl

@[simp] theorem name_stampNew (s : MemoryStore) (o : Object) : (s.stampNew o).2.name = o.name := by
  unfold stampNew stampUid stampVersion
  dsimp only
  split <;> rfl

@[simp] theorem data_stampNew (s : MemoryStore) (o : Object) : (s.stampNew o).2.data = o.data := by
  unfold stampNew stampUid stampVersion
  dsimp only
  split <;> rfl

/-- A stored object that is given the status of another one has the same status as that one. -/
theorem status?_withStatus (stored incoming : Object) :
    RecordType.status? (withStatus stored incoming) = RecordType.status? incoming :=
  RecordType.status?_withNull (by simp [withStatus])

/-! What a call can do to the stored objects. -/

theorem restate_objects (s : MemoryStore) (kind : Kind) (name : Name) (op : Operation)
    (o : Object) :
    ∃ p, (s.restate kind name op o).2 = .ok (.stored p) ∧ p.name = o.name ∧ p.data = o.data ∧
      (s.restate kind name op o).1.objects = s.objects.insert (kind, name) p :=
  ⟨_, rfl, rfl, rfl, rfl⟩

theorem commit_get (s : MemoryStore) (kind : Kind) (name : Name) :
    (s.commit kind (.get name)).2 = .ok (.found (s.find? kind name)) ∧
      (s.commit kind (.get name)).1.objects = s.objects := ⟨rfl, rfl⟩

theorem commit_list (s : MemoryStore) (kind : Kind) (scope : Option String) :
    (s.commit kind (.list scope)).2 =
        .ok (.objects ((s.ofKind kind).filter fun o => inScope scope o.name)) ∧
      (s.commit kind (.list scope)).1.objects = s.objects := ⟨rfl, rfl⟩

theorem commit_create (s : MemoryStore) (kind : Kind) (o : Object) :
    ((∃ e, (s.commit kind (.create o)).2 = .error e) ∧
      (s.commit kind (.create o)).1.objects = s.objects) ∨
    (s.find? kind o.name = none ∧ ∃ p, (s.commit kind (.create o)).2 = .ok (.stored p) ∧
      p.name = o.name ∧ p.data = o.data.dropMember "status" ∧
      (s.commit kind (.create o)).1.objects = s.objects.insert (kind, o.name) p) := by
  unfold commit
  dsimp only
  split
  · exact Or.inl ⟨⟨_, rfl⟩, rfl⟩
  · rename_i hf
    refine Or.inr ⟨hf, _, rfl, ?_, ?_, ?_⟩
    · rw [name_stampNew]
      rfl
    · rw [data_stampNew]
    · simp [succeed, put]

theorem commit_updateStatus (s : MemoryStore) (kind : Kind) (o : Object) :
    ((∃ e, (s.commit kind (.updateStatus o)).2 = .error e) ∧
      (s.commit kind (.updateStatus o)).1.objects = s.objects) ∨
    ∃ stored p, s.find? kind o.name = some stored ∧
      (s.commit kind (.updateStatus o)).2 = .ok (.stored p) ∧
      p.name = stored.name ∧ p.data = (withStatus stored o).data ∧
      (s.commit kind (.updateStatus o)).1.objects = s.objects.insert (kind, o.name) p := by
  unfold commit
  dsimp only
  split
  · exact Or.inl ⟨⟨_, rfl⟩, rfl⟩
  · rename_i stored hf
    split
    · exact Or.inl ⟨⟨_, rfl⟩, rfl⟩
    · obtain ⟨p, hp, hn, hd, ho⟩ :=
        restate_objects s kind o.name .updateStatus (withStatus stored o)
      exact Or.inr ⟨stored, p, hf, hp, hn, hd, ho⟩

theorem commit_update (s : MemoryStore) (kind : Kind) (o : Object) :
    ((∃ e, (s.commit kind (.update o)).2 = .error e) ∧
      (s.commit kind (.update o)).1.objects = s.objects) ∨
    ∃ p, (s.commit kind (.update o)).2 = .ok (.stored p) ∧ p.name = o.name ∧ p.data = o.data ∧
      (s.commit kind (.update o)).1.objects = s.objects.insert (kind, o.name) p := by
  unfold commit
  dsimp only
  split
  · exact Or.inl ⟨⟨_, rfl⟩, rfl⟩
  · rename_i stored hf
    split
    · exact Or.inl ⟨⟨_, rfl⟩, rfl⟩
    · obtain ⟨p, hp, hn, hd, ho⟩ := restate_objects s kind o.name .update
        { o with metadata := { o.metadata with uid := stored.metadata.uid } }
      exact Or.inr ⟨p, hp, hn, hd, ho⟩

theorem commit_patchMerge (s : MemoryStore) (kind : Kind) (name : Name) (patch : Json) :
    ((∃ e, (s.commit kind (.patchMerge name patch)).2 = .error e) ∧
      (s.commit kind (.patchMerge name patch)).1.objects = s.objects) ∨
    ∃ stored p, s.find? kind name = some stored ∧
      (s.commit kind (.patchMerge name patch)).2 = .ok (.stored p) ∧ p.name = stored.name ∧
      (s.commit kind (.patchMerge name patch)).1.objects = s.objects.insert (kind, name) p := by
  unfold commit
  dsimp only
  split
  · exact Or.inl ⟨⟨_, rfl⟩, rfl⟩
  · rename_i stored hf
    obtain ⟨p, hp, hn, -, ho⟩ := restate_objects s kind name .patchMerge (patched stored patch)
    exact Or.inr ⟨stored, p, hf, hp, hn, ho⟩

/-- A call meets a fault that is queued for it, or it takes effect. -/
theorem perform_cases (s : MemoryStore) (kind : Kind) (call : Call) :
    ((∃ e, (s.perform kind call).2 = .error e) ∧ (s.perform kind call).1.objects = s.objects) ∨
    ∃ t : MemoryStore, t.objects = s.objects ∧ s.perform kind call = t.commit kind call := by
  unfold perform
  have ho := objects_enter s call.operation
  split
  · rename_i t e he
    rw [he] at ho
    exact Or.inl ⟨⟨e, rfl⟩, ho⟩
  · rename_i t he
    rw [he] at ho
    exact Or.inr ⟨t, ho, rfl⟩

/-- A call that fails changes no object. -/
theorem objects_of_error {s : MemoryStore} {kind : Kind} {call : Call} {e : StoreError}
    (h : (s.perform kind call).2 = .error e) : (s.perform kind call).1.objects = s.objects := by
  rcases s.perform_cases kind call with ⟨-, ho⟩ | ⟨t, ht, hp⟩
  · exact ho
  · rw [hp] at h ⊢
    rw [← ht]
    cases call with
    | list scope => cases h
    | get name => cases h
    | create o =>
      rcases t.commit_create kind o with ⟨-, ho⟩ | ⟨-, p, hok, -⟩
      · exact ho
      · cases hok.symm.trans h
    | update o =>
      rcases t.commit_update kind o with ⟨-, ho⟩ | ⟨p, hok, -⟩
      · exact ho
      · cases hok.symm.trans h
    | updateStatus o =>
      rcases t.commit_updateStatus kind o with ⟨-, ho⟩ | ⟨stored, p, -, hok, -⟩
      · exact ho
      · cases hok.symm.trans h
    | patchMerge name patch =>
      rcases t.commit_patchMerge kind name patch with ⟨-, ho⟩ | ⟨stored, p, -, hok, -⟩
      · exact ho
      · cases hok.symm.trans h

end FedTrack.MemoryStore
