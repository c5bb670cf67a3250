import FedTrack.Proofs.Json.Agree
import FedTrack.Proofs.Json.Member
import FedTrack.Proofs.Object.Lookup
import FedTrack.Proofs.Table.Order
import FedTrack.Status.Reconcile

namespace FedTrack

/-- A target shows a status exactly if it has one that is a map. -/
theorem shownStatus_eq_some {target : Object} {m : Json.Members} :
    shownStatus target = some m ↔ target.data.member? "status" = some (.object m) := by
  have hlook : shownStatus target = some m ↔ target.nestedMap ["status"] = .ok (some m) := by
    unfold shownStatus Object.statusMap
    cases target.nestedMap ["status"] <;> simp
  rw [hlook, Object.nestedMap_eq_some_iff, Json.Leads.cons_iff]
  simp [Json.Leads.nil_iff]

/-- Names in ascending order. -/
def ascending (l : List String) : List String := l.mergeSort fun a b => !Key.lt b a

section
variable {l l' : List String}

theorem ascending_perm (l : List String) : (ascending l).Perm l := List.mergeSort_perm l _

theorem pairwise_ascending (l : List String) :
    (ascending l).Pairwise fun a b => Key.lt b a = false :=
  Key.pairwise_mergeSort id l

theorem strict_ascending (h : l.Nodup) :
    (ascending l).Pairwise fun a b => Key.lt a b = true := by
  have hnodup : (ascending l).Nodup := (ascending_perm l).nodup_iff.mpr h
  refine ((pairwise_ascending l).and hnodup).imp ?_
  rintro a b ⟨hba, hne⟩
  exact Key.lt_of_not_lt_of_ne hba hne

/-- The order in which names are given does not matter. -/
theorem ascending_congr (h : l.Perm l') : ascending l = ascending l' := by
  refine List.Perm.eq_of_pairwise ?_ (pairwise_ascending l) (pairwise_ascending l') ?_
  · intro a b _ _ hba hab
    exact Key.eq_of_not_lt hab hba
  · exact (ascending_perm l).trans (h.trans (ascending_perm l').symm)

end

namespace AggregatedStatus

/-- Entries that are made of the clusters are sorted like the clusters. -/
theorem clusters_of {f : String → ClusterStatus} (hf : ∀ c, (f c).cluster = c) (generation : Int)
    (l : List String) : (of generation (l.map f)).clusters = (ascending l).map f := by
  symm
  apply List.map_mergeSort
  intro a _ b _
  rw [atMost, hf, hf]

end AggregatedStatus

namespace StatusSources

variable {s : StatusSources} {key : Name}

/-- Status of the target in one cluster that can be looked up. -/
def observed (s : StatusSources) (key : Name) (cluster : String) : ClusterStatus :=
  ⟨cluster, (s.targets.objects.find? (cluster, key)).bind shownStatus⟩

theorem clusterStatus_eq (s : StatusSources) (key : Name) (cluster : String) :
    s.clusterStatus key cluster =
      if s.targets.failing.contains cluster then none else some (s.observed key cluster) := by
  unfold clusterStatus TargetObjects.lookup
  split <;> rfl

/-- Either the target can be looked up in all clusters, or nothing is observed. -/
theorem mapM_clusterStatus (s : StatusSources) (key : Name) (l : List String) :
    l.mapM (s.clusterStatus key) =
      if l.any s.targets.failing.contains then none else some (l.map (s.observed key)) := by
  induction l with
  | nil => rfl
  | cons c l ih =>
    rw [List.mapM_cons, clusterStatus_eq, ih, List.any_cons]
    cases s.targets.failing.contains c with
    | true => rfl
    | false => cases l.any s.targets.failing.contains <;> rfl

end StatusSources

/-- The entry of a cluster in a rollup of the target objects `key`: it has the cluster's name, and
it has a status exactly if the target exists there with a status that is a map, the `same` one. A
status that is written is identical to the target's, one that was stored before is equal to it as
a value. -/
structure EntryFor (same : Json → Json → Prop) (targets : TargetObjects) (key : Name)
    (cluster : String) (entry : Json) : Prop where
  name : entry.member? "name" = some (.string cluster)
  shown : ∀ target m, targets.lookup cluster key = some (some target) →
    target.data.member? "status" = some (.object m) →
      ∃ j, entry.member? "status" = some j ∧ same j (.object m)
  only : ∀ j, entry.member? "status" = some j → ∃ target m,
    targets.lookup cluster key = some (some target) ∧
      target.data.member? "status" = some (.object m)

/-- A rollup has one entry for each ready cluster, in strictly ascending order of their names. -/
def RollsUp (same : Json → Json → Prop) (s : StatusSources) (key : Name) (clusters : Json) : Prop :=
  ∃ order entries, clusters = .array entries ∧ order.Perm s.clusters.names ∧
    order.Pairwise (fun a b => Key.lt a b = true) ∧
      List.Forall₂ (EntryFor same s.targets key) order entries

namespace StatusSources

variable {s : StatusSources} {key : Name}

theorem member?_toJson (c : ClusterStatus) :
    c.toJson.member? "name" = some (.string c.cluster) ∧
      c.toJson.member? "status" = c.status.map .object := by
  unfold ClusterStatus.toJson
  cases c.status <;> simp [Json.member?, Assoc.find?]

/-- The entry that is written for a cluster. -/
theorem entryFor_observed {cluster : String} (hc : s.targets.failing.contains cluster = false) :
    EntryFor (· = ·) s.targets key cluster (s.observed key cluster).toJson := by
  have hlookup : s.targets.lookup cluster key = some (s.targets.objects.find? (cluster, key)) := by
    unfold TargetObjects.lookup
    rw [hc]
    rfl
  obtain ⟨hname, hstatus⟩ := member?_toJson (s.observed key cluster)
  refine ⟨hname, ?_, ?_⟩
  · intro target m htarget hm
    have hfind : s.targets.objects.find? (cluster, key) = some target :=
      Option.some.inj (hlookup.symm.trans htarget)
    refine ⟨.object m, ?_, rfl⟩
    rw [hstatus, observed, hfind, Option.bind_some, shownStatus_eq_some.mpr hm, Option.map_some]
  · intro j hj
    rw [hstatus] at hj
    obtain ⟨m, hm, rfl⟩ := Option.map_eq_some_iff.mp hj
    obtain ⟨target, htarget, hshown⟩ := Option.bind_eq_some_iff.mp hm
    exact ⟨target, m, hlookup.trans (congrArg some htarget), shownStatus_eq_some.mp hshown⟩

end StatusSources

/-- What agrees with the entry of a cluster is an entry of this cluster. -/
theorem EntryFor.of_agrees {targets : TargetObjects} {key : Name} {cluster : String}
    {c : ClusterStatus} {j : Json} (h : EntryFor (· = ·) targets key cluster c.toJson)
    (hj : j.agrees c.toJson = true) :
    EntryFor (fun a b => a.agrees b = true) targets key cluster j := by
  have hmember (name : String) : (j.member? name = none ∧ c.toJson.member? name = none) ∨
      ∃ a b, j.member? name = some a ∧ c.toJson.member? name = some b ∧ a.agrees b = true := by
    unfold ClusterStatus.toJson at hj ⊢
    split at hj
    · exact Json.member?_of_agrees_object hj name
    · exact Json.member?_of_agrees_object hj name
  refine ⟨?_, ?_, ?_⟩
  · rcases hmember "name" with ⟨-, hnone⟩ | ⟨a, b, ha, hb, hab⟩
    · rw [h.name] at hnone
      cases hnone
    · rw [h.name] at hb
      cases hb
      rw [ha, Json.eq_of_agrees_string hab]
  · intro target m htarget hm
    obtain ⟨_, hshown, rfl⟩ := h.shown target m htarget hm
    rcases hmember "status" with ⟨-, hnone⟩ | ⟨a, b, ha, hb, hab⟩
    · rw [hshown] at hnone
      cases hnone
    · rw [hshown] at hb
      cases hb
      exact ⟨a, ha, hab⟩
  · intro a ha
    rcases hmember "status" with ⟨hnone, -⟩ | ⟨_, b, -, hb, -⟩
    · rw [ha] at hnone
      cases hnone
    · exact h.only b hb

namespace StatusSources

variable {s : StatusSources} {key : Name}

/-- The aggregated status of the ready clusters. -/
def rolledUp (s : StatusSources) (key : Name) (generation : Int) : AggregatedStatus :=
  .of generation (s.clusters.names.map (s.observed key))

theorem clustersJson_rolledUp (s : StatusSources) (key : Name) (generation : Int) :
    (s.rolledUp key generation).clustersJson =
      .array ((ascending s.clusters.names).map fun c => (s.observed key c).toJson) := by
  unfold rolledUp AggregatedStatus.clustersJson
  rw [AggregatedStatus.clusters_of (fun _ => rfl), List.map_map]
  rfl

theorem entryFor_ascending (h : s.clusters.names.any s.targets.failing.contains = false) :
    ∀ c ∈ ascending s.clusters.names,
      EntryFor (· = ·) s.targets key c (s.observed key c).toJson := by
  intro c hc
  have hready : c ∈ s.clusters.names := (ascending_perm _).mem_iff.mp hc
  apply entryFor_observed
  rw [Bool.eq_false_iff]
  intro hf
  rw [List.any_eq_true.mpr ⟨c, hready, hf⟩] at h
  cases h

theorem rollsUp_rolledUp (hd : s.clusters.names.Nodup)
    (h : s.clusters.names.any s.targets.failing.contains = false) (generation : Int) :
    RollsUp (· = ·) s key (s.rolledUp key generation).clustersJson := by
  refine ⟨ascending s.clusters.names, _, clustersJson_rolledUp s key generation,
    ascending_perm _, strict_ascending hd, ?_⟩
  rw [List.forall₂_map_right_iff, List.forall₂_same]
  exact entryFor_ascending h

theorem forall₂_entryFor {order : List String} {entries : List Json}
    (hagrees : List.Forall₂ (fun j c => j.agrees (s.observed key c).toJson = true) entries order)
    (hwritten : ∀ c ∈ order, EntryFor (· = ·) s.targets key c (s.observed key c).toJson) :
    List.Forall₂ (EntryFor (fun a b => a.agrees b = true) s.targets key) order entries := by
  induction hagrees with
  | nil => exact .nil
  | cons hj _ ih =>
    refine .cons ((hwritten _ List.mem_cons_self).of_agrees hj) (ih ?_)
    intro c hc
    exact hwritten c (List.mem_cons_of_mem _ hc)

/-- What agrees with the rollup that would be written rolls the targets up as well. -/
theorem rollsUp_of_agrees (hd : s.clusters.names.Nodup)
    (h : s.clusters.names.any s.targets.failing.contains = false) {generation : Int} {shown : Json}
    (hs : shown.agrees (s.rolledUp key generation).clustersJson = true) :
    RollsUp (fun a b => a.agrees b = true) s key shown := by
  rw [clustersJson_rolledUp] at hs
  obtain ⟨entries, rfl, hentries⟩ := Json.forall₂_of_agrees_array hs
  refine ⟨ascending s.clusters.names, entries, rfl, ascending_perm _, strict_ascending hd, ?_⟩
  rw [List.forall₂_map_right_iff] at hentries
  exact forall₂_entryFor hentries (entryFor_ascending h)

/-- What is decided for a key whose federated resource is there and not being deleted: nothing can
be said, or the rollup is shown already, or it is what the call writes. -/
inductive Rolled (s : StatusSources) (key : Name) : StatusDecision → Prop
  | failed {outcome : ReconcileOutcome} (h : outcome ≠ .allOk) : Rolled s key (.finish outcome)
  | shown {existing : Object} {shown : Json} (he : s.status.find? key = some existing)
      (hs : existing.data.member? "clusters" = some shown)
      (hr : RollsUp (fun a b => a.agrees b = true) s key shown) : Rolled s key (.finish .allOk)
  | writes {call : Call} {o : Object} {written : Json} (hc : call = .create o ∨ call = .update o)
      (hw : o.data.member? "clusters" = some written) (hr : RollsUp (· = ·) s key written) :
      Rolled s key (.write call)

theorem rolled_write (hd : s.clusters.names.Nodup)
    (h : s.clusters.names.any s.targets.failing.contains = false) (resource : Resource)
    (federated : Object) (generation : Int) :
    Rolled s key (s.write resource key federated (s.rolledUp key generation)) := by
  have hr : RollsUp (· = ·) s key (s.rolledUp key generation).clustersJson :=
    rollsUp_rolledUp hd h generation
  unfold write
  split
  · split
    · exact .failed nofun
    · rename_i owner _
      generalize hs : s.rolledUp key generation = status at hr
      have hw : (status.toObject resource key.scope? key.name owner).data.member? "clusters" =
          some status.clustersJson := rfl
      exact .writes (Or.inl rfl) hw hr
  · rename_i existing he
    split
    · rename_i hshows
      unfold shows at hshows
      split at hshows
      · rename_i shown hs
        exact .shown he hs (rollsUp_of_agrees hd h hshows)
      · cases hshows
    · have hw : ((s.rolledUp key generation).writeClustersInto existing).data.member? "clusters" =
          some (s.rolledUp key generation).clustersJson := by
        simp [AggregatedStatus.writeClustersInto]
      exact .writes (Or.inr rfl) hw hr

/-- Where the federated resource is there and not being deleted. -/
theorem decide_present {federated : Object} (hf : s.federated.find? key = some federated)
    (hp : federated.isBeingDeleted = false) (resource : Resource) : s.decide resource key =
      if s.clusters.failing then .finish .notSynced
      else if s.clusters.names.any s.targets.failing.contains then .finish .error
      else s.write resource key federated
        (s.rolledUp key (federated.metadata.generation.getD 0)) := by
  simp only [decide, hf, hp, Bool.false_eq_true, if_false, ReadyClusters.get?]
  split
  · rename_i hget
    split at hget
    · rename_i hfailing
      rw [if_pos hfailing]
    · cases hget
  · rename_i ready hget
    split at hget
    · cases hget
    · rename_i hfailing
      cases hget
      rw [mapM_clusterStatus, if_neg hfailing]
      cases s.clusters.names.any s.targets.failing.contains <;> rfl

theorem rolled_decide {federated : Object} (hf : s.federated.find? key = some federated)
    (hp : federated.isBeingDeleted = false) (hd : s.clusters.names.Nodup) (resource : Resource) :
    Rolled s key (s.decide resource key) := by
  rw [decide_present hf hp]
  split
  · exact .failed nofun
  · split
    · exact .failed nofun
    · rename_i h
      exact rolled_write hd (Bool.eq_false_iff.mpr h) resource federated _

/-- The same federated object and the same targets in the same ready clusters, named in any order. -/
structure SameFor (key : Name) (s t : StatusSources) : Prop where
  federated : t.federated.find? key = s.federated.find? key
  ready : t.clusters.names.Perm s.clusters.names
  targets : ∀ c ∈ s.clusters.names, t.targets.lookup c key = s.targets.lookup c key

namespace SameFor

variable {t : StatusSources}

theorem clusterStatus (h : SameFor key s t) {c : String} (hc : c ∈ s.clusters.names) :
    t.clusterStatus key c = s.clusterStatus key c := by
  unfold StatusSources.clusterStatus
  rw [h.targets c hc]

theorem failing (h : SameFor key s t) {c : String} (hc : c ∈ s.clusters.names) :
    t.targets.failing.contains c = s.targets.failing.contains c := by
  have hlookup := h.clusterStatus hc
  rw [clusterStatus_eq, clusterStatus_eq] at hlookup
  cases ht : t.targets.failing.contains c <;> cases hs : s.targets.failing.contains c <;>
    simp_all

theorem any_failing (h : SameFor key s t) :
    t.clusters.names.any t.targets.failing.contains =
      s.clusters.names.any s.targets.failing.contains := by
  rw [h.ready.any_eq]
  have hall (l : List String) (hl : ∀ c ∈ l, c ∈ s.clusters.names) :
      l.any t.targets.failing.contains = l.any s.targets.failing.contains := by
    induction l with
    | nil => rfl
    | cons c l ih =>
      rw [List.any_cons, List.any_cons, h.failing (hl c List.mem_cons_self),
        ih fun c hc => hl c (List.mem_cons_of_mem _ hc)]
  exact hall _ fun _ hc => hc

theorem observed (h : SameFor key s t) {c : String} (hc : c ∈ s.clusters.names)
    (hf : s.targets.failing.contains c = false) : t.observed key c = s.observed key c := by
  have hlookup := h.clusterStatus hc
  rw [clusterStatus_eq, clusterStatus_eq, h.failing hc, hf] at hlookup
  simpa using hlookup

/-- The order in which the ready clusters are named does not matter to the rollup. -/
theorem rolledUp (h : SameFor key s t)
    (hf : s.clusters.names.any s.targets.failing.contains = false) (generation : Int) :
    t.rolledUp key generation = s.rolledUp key generation := by
  have hentries : (ascending s.clusters.names).map (t.observed key) =
      (ascending s.clusters.names).map (s.observed key) := by
    apply List.map_congr_left
    intro c hc
    have hready : c ∈ s.clusters.names := (ascending_perm _).mem_iff.mp hc
    refine h.observed hready (Bool.eq_false_iff.mpr fun hfailing => ?_)
    rw [List.any_eq_true.mpr ⟨c, hready, hfailing⟩] at hf
    cases hf
  have hclusters : (t.rolledUp key generation).clusters = (s.rolledUp key generation).clusters := by
    unfold StatusSources.rolledUp
    rw [AggregatedStatus.clusters_of (fun _ => rfl), AggregatedStatus.clusters_of (fun _ => rfl),
      ascending_congr h.ready, hentries]
  show (⟨generation, [], (t.rolledUp key generation).clusters⟩ : AggregatedStatus) =
    ⟨generation, [], (s.rolledUp key generation).clusters⟩
  rw [hclusters]

/-- What is decided depends on no more than these sources and the status object that is known. -/
theorem decide (h : SameFor key s t) (hclusters : t.clusters.failing = s.clusters.failing)
    (hstatus : t.status.find? key = s.status.find? key) (resource : Resource) :
    t.decide resource key = s.decide resource key := by
  cases hf : s.federated.find? key with
  | none =>
    have hf' : t.federated.find? key = none := h.federated.trans hf
    simp only [StatusSources.decide, hf, hf']
  | some federated =>
    have hf' : t.federated.find? key = some federated := h.federated.trans hf
    cases hp : federated.isBeingDeleted with
    | true => simp only [StatusSources.decide, hf, hf', hp, if_true]
    | false =>
      rw [decide_present hf hp, decide_present hf' hp, h.any_failing, hclusters]
      cases hany : s.clusters.names.any s.targets.failing.contains with
      | true => rfl
      | false =>
        have hwrite (status : AggregatedStatus) :
            t.write resource key federated status = s.write resource key federated status := by
          unfold write
          rw [hstatus]
        rw [h.rolledUp hany, hwrite]

end SameFor

/-- The sources with the ready clusters in another order. -/
def reorder (π : List String → List String) (s : StatusSources) : StatusSources :=
  s.onClusters fun r => { r with names := π r.names }

section
variable {π : List String → List String}

theorem areSynced_reorder (hπ : ∀ l, (π l).Perm l) (s : StatusSources) :
    (s.reorder π).areSynced = s.areSynced := by
  have hall : s.targets.areSynced (π s.clusters.names) = s.targets.areSynced s.clusters.names :=
    (hπ s.clusters.names).all_eq
  unfold areSynced reorder onClusters ReadyClusters.get?
  dsimp only
  cases s.clusters.failing with
  | true => rfl
  | false =>
    simp only [Bool.false_eq_true, if_false, hall]

theorem decide_reorder (hπ : ∀ l, (π l).Perm l) (s : StatusSources) (resource : Resource)
    (key : Name) : (s.reorder π).decide resource key = s.decide resource key := by
  have hsame : SameFor key s (s.reorder π) := ⟨rfl, hπ _, fun _ _ => rfl⟩
  exact hsame.decide rfl rfl resource

end

end StatusSources

end FedTrack
