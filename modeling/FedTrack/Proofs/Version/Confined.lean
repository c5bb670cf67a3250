import FedTrack.Proofs.Store.Landing
import FedTrack.Proofs.Version.Course

namespace FedTrack

open MemoryStore

namespace VersionManager

/-- Records cached under names with the property `P` have such names themselves. -/
def Shelved (P : Name → Prop) (m : VersionManager) : Prop :=
  ∀ key o, m.records.find? key = some o → P key → P o.name

theorem Shelved.congr {P : Name → Prop} {m m' : VersionManager} (h : m.Shelved P)
    (hr : ∀ key, P key → m'.records.find? key = m.records.find? key) : m'.Shelved P := by
  intro key o ho hp
  rw [hr key hp] at ho
  exact h key o ho hp

/-- Both the name that a resource's record is cached under and the one that it is stored under have
the property `P`. -/
def Places (P : Name → Prop) (m : VersionManager) (resource : Name) : Prop :=
  P (m.recordName resource) ∧ P (m.recordType.ownName (m.recordName resource))

theorem places_congr {P : Name → Prop} {m m' : VersionManager} (h : m'.setup = m.setup) (n : Name) :
    m'.Places P n ↔ m.Places P n := by
  obtain ⟨-, -, ht⟩ := setup_iff.mp h
  rw [Places, Places, recordName_congr h, ht]

end VersionManager

/-- All names that the update still uses have the property `P`. -/
def UpdateStage.Within (P : Name → Prop) (m : VersionManager) : UpdateStage → Prop
  | .preparing r => m.Places P r.resource.name
  | .writing name w => P name ∧ P w.record.name
  | .adopting name _ => P name
  | .finished _ => True

namespace Site

/-- `y` comes from `x` by something that only touches names with the property `P`. -/
structure Confined (P : Name → Prop) (x y : Site) : Prop where
  setup : y.manager.setup = x.manager.setup
  objects : ∀ kind name, ¬ P name → y.store.find? kind name = x.store.find? kind name
  records : ∀ key, ¬ P key → y.manager.records.find? key = x.manager.records.find? key
  onward : x.store.nextVersion ≤ y.store.nextVersion
  sound : y.store.Sound
  faultless : x.store.faults = [] → y.store.faults = []
  shelved : y.manager.Shelved P

variable {P : Name → Prop} {x : Site}

/-- The store stays as it is. -/
theorem confined_manager (hs : x.store.Sound) {m : VersionManager}
    (hsetup : m.setup = x.manager.setup)
    (hrecords : ∀ key, ¬ P key → m.records.find? key = x.manager.records.find? key)
    (hshelved : m.Shelved P) : Confined P x ⟨m, x.store⟩ :=
  ⟨hsetup, fun _ _ _ => rfl, hrecords, Nat.le_refl _, hs, id, hshelved⟩

theorem confined_refl (hs : x.store.Sound) (hshelved : x.manager.Shelved P) : Confined P x x :=
  confined_manager hs rfl (fun _ _ => rfl) hshelved

theorem confined_call (hs : x.store.Sound) (hshelved : x.manager.Shelved P) {c : Call}
    (hc : ∀ name, c.target? = some name → P name) : Confined P x (x.call c).1 := by
  have hl := landed_perform hs.filed x.kind c
  refine ⟨rfl, ?_, fun _ _ => rfl, hl.onward, hl.sound hs, ?_, hshelved⟩
  · intro kind name hn
    exact hl.elsewhere (fun ht => hn (hc name ht)) kind
  · intro hf
    exact faults_perform hf x.kind c

theorem confined_cache (hs : x.store.Sound) (hshelved : x.manager.Shelved P) {key : Name}
    {record : Object} (hk : P key) (hr : P record.name) :
    Confined P x ⟨x.manager.cache key record, x.store⟩ := by
  refine confined_manager hs rfl ?_ ?_
  · intro other hn
    rw [VersionManager.find?_cache, if_neg]
    rintro rfl
    exact hn hk
  · intro other o ho hp
    rw [VersionManager.find?_cache] at ho
    split at ho
    · cases ho
      exact hr
    · exact hshelved other o ho hp

theorem confined_adopt (hs : x.store.Sound) (hshelved : x.manager.Shelved P) {key : Name}
    (hk : P key) (version : Option String) :
    Confined P x ⟨x.manager.adopt key version, x.store⟩ := by
  refine confined_manager hs (VersionManager.setup_adopt key version) ?_ ?_
  · intro other hn
    rw [VersionManager.find?_adopt, if_neg]
    rintro rfl
    exact hn hk
  · intro other o ho hp
    rw [VersionManager.find?_adopt] at ho
    split at ho
    · obtain ⟨p, hp', rfl⟩ := Option.map_eq_some_iff.mp ho
      exact hshelved other p hp' hp
    · exact hshelved other o ho hp

theorem confined_delete (hs : x.store.Sound) (hshelved : x.manager.Shelved P) {n : Name}
    (hn : P (x.manager.recordName n)) : Confined P x ⟨x.manager.delete n, x.store⟩ := by
  refine confined_manager hs rfl ?_ ?_
  · intro other ho
    rw [VersionManager.find?_delete, if_neg]
    rintro rfl
    exact ho hn
  · intro other o ho hp
    rw [VersionManager.find?_delete] at ho
    split at ho
    · cases ho
    · exact hshelved other o ho hp

theorem confined_load (hs : x.store.Sound) (hshelved : x.manager.Shelved P)
    (howned : ∀ n, x.manager.owns n = true → P n) (listed : List Object) :
    Confined P x ⟨x.manager.load listed, x.store⟩ := by
  refine confined_manager hs rfl ?_ ?_
  · intro key hn
    rw [VersionManager.find?_load]
    have hnone : (listed.filter fun o => x.manager.owns o.name ∧ o.name = key) = [] := by
      rw [List.filter_eq_nil_iff]
      intro o _ ho
      simp only [decide_eq_true_eq] at ho
      exact hn (ho.2 ▸ howned o.name ho.1)
    rw [hnone]
    rfl
  · intro key o ho hp
    rw [VersionManager.find?_load, Option.or_eq_some_iff] at ho
    rcases ho with ho | ⟨-, ho⟩
    · have hmem := List.mem_of_getLast? ho
      simp only [List.mem_filter, decide_eq_true_eq] at hmem
      rw [hmem.2.2]
      exact hp
    · exact hshelved key o ho hp

/-- An update only touches what it uses. -/
theorem confined_step (now : Time) (hs : x.store.Sound) (hshelved : x.manager.Shelved P)
    {u : UpdateStage} (hu : u.Within P x.manager) :
    Confined P x (UpdateStage.step now x u).1 ∧
      (UpdateStage.step now x u).2.Within P x.manager := by
  cases u with
  | preparing r =>
    obtain ⟨hkey, hown⟩ := hu
    have h := UpdateStage.step_preparing now x r
    generalize UpdateStage.step now x (.preparing r) = z at h
    cases h with
    | refused hp => exact ⟨confined_refl hs hshelved, trivial⟩
    | idle hp => exact ⟨confined_refl hs hshelved, trivial⟩
    | @changed w hp =>
      have hname : P w.record.name := by
        obtain ⟨-, hn, -⟩ := VersionManager.prepare_some hp
        rw [hn, VersionManager.ownName]
        split
        · rename_i record hf
          exact hshelved _ record hf hkey
        · exact hown
      exact ⟨confined_cache hs hshelved hkey hname, hkey, hname⟩
  | writing name w =>
    obtain ⟨hname, hrecord⟩ := hu
    cases hc : w.call? name with
    | none =>
      simp only [UpdateStage.step, hc]
      refine ⟨confined_refl hs hshelved, hname, ?_⟩
      rw [Write.record_wake]
      exact hrecord
    | some c =>
      have htarget : ∀ n, c.target? = some n → P n := by
        intro n hn
        unfold Write.call? at hc
        split at hc
        · cases hc
          cases hn
        · cases hc
          cases hn
          exact hrecord
        · cases hc
          cases hn
          exact hrecord
        · cases hc
        · cases hc
      simp only [UpdateStage.step, hc]
      refine ⟨confined_call hs hshelved htarget, ?_⟩
      unfold UpdateStage.answer UpdateStage.afterWrite
      dsimp only
      split
      · exact hname
      · trivial
      · refine ⟨hname, ?_⟩
        rw [Write.record_answer]
        exact hrecord
  | adopting name version => exact ⟨confined_adopt hs hshelved hu version, trivial⟩
  | finished result => exact ⟨confined_refl hs hshelved, trivial⟩

end Site

end FedTrack
