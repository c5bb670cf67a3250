import FedTrack.Proofs.Version.Bureau
import FedTrack.Proofs.Version.Runs

namespace FedTrack

open MemoryStore

/-- A target kind without a dash can be read off the names of its records. -/
theorem RecordType.takeWhile_of_namePrefix {k : String} (hk : '-' ∉ (lowerCase k).toList)
    {name : List Char} (h : (namePrefix k).toList <+: name) :
    name.takeWhile (· != '-') = (lowerCase k).toList := by
  obtain ⟨rest, rfl⟩ := h
  rw [namePrefix, String.toList_append, List.append_assoc, List.takeWhile_append_of_pos]
  · change (lowerCase k).toList ++ ('-' :: rest).takeWhile (· != '-') = (lowerCase k).toList
    rw [List.takeWhile_cons_of_neg (by simp), List.append_nil]
  · intro c hc
    rw [bne_iff_ne]
    rintro rfl
    exact hk hc

namespace VersionManager

theorem owns_iff {m : VersionManager} {n : Name} :
    m.owns n = true ↔ (RecordType.namePrefix m.targetKind).toList <+: n.name.toList := by
  rw [owns, List.isPrefixOf_iff_prefix]

/-- No record is owned by managers of two target kinds. -/
theorem lowerCase_of_owns {m m' : VersionManager} (hm : '-' ∉ (lowerCase m.targetKind).toList)
    (hm' : '-' ∉ (lowerCase m'.targetKind).toList) {n : Name} (h : m.owns n = true)
    (h' : m'.owns n = true) : lowerCase m.targetKind = lowerCase m'.targetKind := by
  refine String.toList_inj.mp ?_
  rw [← RecordType.takeWhile_of_namePrefix hm (owns_iff.mp h),
    RecordType.takeWhile_of_namePrefix hm' (owns_iff.mp h')]

/-- All that a manager is asked for is about records that it owns. -/
theorem within_owned {m : VersionManager} {P : Name → Prop} (h : ∀ n, m.owns n = true → P n)
    (d : Demand) : d.errand.Within P m := by
  cases d with
  | sync => exact h
  | update r =>
    refine ⟨h _ (m.owns_recordName _), h _ ?_⟩
    exact m.owns_recordName r.resource.name
  | get resource => exact h _ (m.owns_recordName _)
  | delete resource => exact h _ (m.owns_recordName _)

end VersionManager

namespace Bureau

section
variable {ι κ : Type} [DecidableEq ι] [DecidableEq κ] {host : ι → κ} {b : Bureau ι κ} {k : κ}

/-- A manager only does what its clients ask for. -/
theorem managers_step {e : Event ι} (he : e.concerns (host · = k) = false) :
    (b.step host e).managers k = b.managers k := by
  have hs := b.stepped host e
  generalize b.step host e = b' at hs
  cases hs with
  | idle => rfl
  | passed span => rfl
  | began d hnone => rfl
  | went hi hready =>
    rw [managers_settle, managers_setSite, if_neg]
    rintro rfl
    simp [Event.concerns] at he

end

section
variable {ι : Type} [DecidableEq ι] {host : ι → Bool} {managers : Bool → VersionManager}
  {b : Bureau ι Bool} {own : Bool}

/-- The names of the records of one of two managers. -/
def ownedBy (managers : Bool → VersionManager) (own : Bool) (n : Name) : Prop :=
  (managers own).owns n = true

section
variable (hkind : lowerCase (managers true).targetKind ≠ lowerCase (managers false).targetKind)
  (hdash : ∀ own, '-' ∉ (lowerCase (managers own).targetKind).toList)
include hkind hdash

theorem owns_other {n : Name} (h : (managers own).owns n = true) :
    (managers (!own)).owns n = false := by
  rw [← Bool.not_eq_true]
  intro h'
  have hsame := VersionManager.lowerCase_of_owns (hdash own) (hdash !own) h h'
  cases own with
  | true => exact hkind hsame
  | false => exact hkind hsame.symm

omit [DecidableEq ι] in
theorem fair_ownedBy (own : Bool) (e : Event ι) :
    e.Fair host (ownedBy managers own) (host · = own) managers := by
  cases e with
  | pass span => trivial
  | go i => trivial
  | ask i d =>
    refine VersionManager.within_owned ?_ d
    intro n hn
    rw [side, ownedBy, decide_eq_true_eq]
    refine ⟨?_, ?_⟩
    · intro h
      have hother := owns_other hkind hdash h
      by_contra hne
      rw [← Bool.eq_not_of_ne hne, hn] at hother
      cases hother
    · rintro rfl
      exact hn

/-- No name of a record begins with the prefix of the other manager's records. -/
theorem nameFor_other (own : Bool) (resource : String) :
    ¬ (RecordType.namePrefix (managers (!own)).targetKind).toList <+:
      (RecordType.nameFor (managers own).targetKind resource).toList := by
  have hother := owns_other hkind hdash ((managers own).owns_recordName ⟨"", resource⟩)
  rw [← Bool.not_eq_true, VersionManager.owns_iff, VersionManager.name_recordName] at hother
  rw [RecordType.nameFor]
  exact hother

end

/-- A manager's cache holds no record of the other manager. -/
def Separate (managers : Bool → VersionManager) (own : Bool) (b : Bureau ι Bool) : Prop :=
  ∀ key o, (b.managers !own).records.find? key = some o → ¬ ownedBy managers own key

theorem Separate.step (hb : b.Separate managers own)
    (h : Tidy host (ownedBy managers own) (host · = own) b) (e : Event ι) :
    (b.step host e).Separate managers own := by
  intro key o ho hkey
  cases he : e.concerns (host · = own) with
  | false =>
    obtain ⟨-, hrecords, -⟩ := h.elsewhere he
    rw [hrecords _ key hkey] at ho
    exact hb key o ho hkey
  | true =>
    by_cases hother : e.concerns (host · = !own) = false
    · rw [managers_step hother] at ho
      exact hb key o ho hkey
    · -- only time concerns the clients of both
      cases e with
      | pass span => exact hb key o ho hkey
      | ask i d => simp_all [Event.concerns]
      | go i => simp_all [Event.concerns]

theorem Separate.run (hb : b.Separate managers own)
    (h : Tidy host (ownedBy managers own) (host · = own) b) {events : List (Event ι)}
    (hfair : ∀ e ∈ events, e.Fair host (ownedBy managers own) (host · = own) b.managers) :
    (b.run host events).Separate managers own := by
  induction events generalizing b with
  | nil => exact hb
  | cons e rest ih =>
    refine ih (hb.step h e) (h.step (hfair e List.mem_cons_self)) ?_
    intro e' hm
    exact (Event.fair_congr (h.setup e) e').mpr (hfair e' (List.mem_cons_of_mem _ hm))

omit [DecidableEq ι] in
theorem twin_of_empty {store : MemoryStore} (hs : store.Sound) (hfaultless : store.faults = [])
    (hempty : ∀ own, (managers own).records = .empty) (now : Time) (own : Bool) :
    Twin host (ownedBy managers own) (host · = own) (new now store managers)
      (new now store managers) := by
  have hnone (k : Bool) (key : Name) : (managers k).records.find? key = none := by
    rw [hempty]
    rfl
  refine .new now hs hfaultless ?_ ?_
  · intro k _ key o ho
    rw [hnone] at ho
    cases ho
  · intro k key o ho
    rw [hnone] at ho
    cases ho

/-- Two managers of different target kinds over one store: neither touches a record of the other,
and what their clients are told does not depend on the other manager. -/
theorem target_kinds_apart (host : ι → Bool) (managers : Bool → VersionManager)
    (hkind : lowerCase (managers true).targetKind ≠ lowerCase (managers false).targetKind)
    (hdash : ∀ own, '-' ∉ (lowerCase (managers own).targetKind).toList)
    (hempty : ∀ own, (managers own).records = .empty) {store : MemoryStore}
    (hreached : store.Reached) (hfaultless : store.faults = []) (now : Time)
    (events : List (Event ι)) :
    let a := new now store managers
    let b := a.run host events
    (∀ own resource resource',
      RecordType.nameFor (managers own).targetKind resource ≠
        RecordType.nameFor (managers !own).targetKind resource' ∧
      ¬ (RecordType.namePrefix (managers !own).targetKind).toList <+:
        (RecordType.nameFor (managers own).targetKind resource).toList) ∧
    (∀ own e, e.concerns (host · = own) = false →
      (b.step host e).managers own = b.managers own ∧
      ∀ kind n, (managers own).owns n = true →
        (b.step host e).store.find? kind n = b.store.find? kind n) ∧
    (∀ own key o, (b.managers !own).records.find? key = some o →
      (managers own).owns key = false ∧ (managers own).owns o.name = false) ∧
    ∀ i, b.replies i =
      (a.run host (events.filter (·.concerns (host · = host i)))).replies i := by
  intro a b
  have hstart (own : Bool) : Twin host (ownedBy managers own) (host · = own) a a :=
    twin_of_empty hreached.sound hfaultless hempty now own
  have hfair (own : Bool) :
      ∀ e ∈ events, e.Fair host (ownedBy managers own) (host · = own) managers :=
    fun e _ => fair_ownedBy hkind hdash own e
  have htidy (own : Bool) : Tidy host (ownedBy managers own) (host · = own) b :=
    ((hstart own).tidy.run (hfair own)).1
  refine ⟨?_, ?_, ?_, ?_⟩
  · intro own resource resource'
    refine ⟨?_, nameFor_other hkind hdash own resource⟩
    intro h
    apply nameFor_other hkind hdash own resource
    rw [h, RecordType.nameFor, String.toList_append]
    exact List.prefix_append _ _
  · intro own e he
    exact ⟨managers_step he, ((htidy own).elsewhere he).1⟩
  · intro own key o ho
    have hnone : a.Separate managers own := by
      intro key o ho
      rw [show (a.managers !own).records = .empty from hempty _] at ho
      cases ho
    have hkey := hnone.run (hstart own).tidy (hfair own) key o ho
    have hname : side (ownedBy managers own) false o.name := by
      apply (htidy own).shelved (!own) false key o ho
      rw [side_false]
      exact hkey
    rw [side_false] at hname
    exact ⟨Bool.eq_false_iff.mpr hkey, Bool.eq_false_iff.mpr hname⟩
  · intro i
    have h := (hstart (host i)).run (hfair (host i))
    exact (h.replies i (by simp)).symm

end

end Bureau

namespace Sample

/-- One manager looks after deployments and one after replica sets. -/
def twoKinds : Bool → VersionManager
  | true => .new true "FederatedDeployment" "Deployment" none
  | false => .new true "FederatedReplicaSet" "ReplicaSet" none

/-- Both managers sync, and then each of them updates a resource of the same name. -/
def sharedStore : List (Bureau.Event Bool) :=
  [.ask true .sync, .ask false .sync, .go true, .go false, .go true, .go false,
    .ask true (.update (request "1")), .ask false (.update (request "1")), .go true, .go false, .go false,
    .go true, .go true, .go false, .go false, .go true, .ask true (.get resource), .go true]

end Sample

theorem Bureau.target_kinds_apart_sample :
    let a := new 0 .empty Sample.twoKinds
    let b := a.run id Sample.sharedStore
    b.replies true =
        (a.run id (Sample.sharedStore.filter (·.concerns (id · = true)))).replies true ∧
      (b.replies true).map Reply.succeeded = [true, true, true] ∧
      (b.replies false).map Reply.succeeded = [true, true] ∧
      b.store.objects.entries.map (·.2.name.name) = ["deployment-web", "replicaset-web"] := by
  obtain ⟨-, -, -, h⟩ := target_kinds_apart id Sample.twoKinds
    (by decide +kernel) (by decide +kernel) (by decide +kernel) .empty rfl 0 Sample.sharedStore
  exact ⟨h true, by decide +kernel, by decide +kernel, by decide +kernel⟩

end FedTrack
