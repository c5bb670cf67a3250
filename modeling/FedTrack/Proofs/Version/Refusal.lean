import FedTrack.Proofs.Version.Docket
import FedTrack.Proofs.Version.Runs

namespace FedTrack

/-- The template counts as absent if it is null. -/
theorem Federated.templateVersion?_eq_none {o : Object} : templateVersion? o = none ↔
    specMember? o "template" = none ∨ specMember? o "template" = some .null := by
  unfold templateVersion?
  cases specMember? o "template" with
  | none => simp
  | some j => cases j <;> simp

/-- Only an object without type has no reference that names it as an owner. -/
theorem Object.ownerReference_eq_error {o : Object} {e : Error} :
    o.ownerReference = .error e ↔ o.types = none ∧ e = .missingType := by
  unfold ownerReference kind
  cases o.types with
  | none =>
    constructor
    · intro h
      cases h
      exact ⟨rfl, rfl⟩
    · rintro ⟨-, rfl⟩
      rfl
  | some t =>
    constructor
    · intro h
      cases h
    · rintro ⟨h, -⟩
      cases h

namespace VersionManager

/-- Why an update of `r` is refused, with the error that says so. -/
inductive Refusal (m : VersionManager) (r : UpdateRequest) : VersionError → Prop
  | noTemplate (h : Federated.specMember? r.resource "template" = none ∨
      Federated.specMember? r.resource "template" = some .null) :
      Refusal m r (.noTemplate r.resource)
  | malformedStatus (record : Object)
      (hcached : m.records.find? (m.recordName r.resource.name) = some record)
      (hstatus : RecordType.status? record = none) : Refusal m r (.malformedStatus m.recordType)
  | noOwner (hcached : m.records.find? (m.recordName r.resource.name) = none)
      (htypes : r.resource.types = none) : Refusal m r (.noOwner .missingType)

variable {m : VersionManager} {r : UpdateRequest}

theorem refusal_of_prepare {e : VersionError} (h : m.prepare r = .error e) : m.Refusal r e := by
  unfold prepare at h
  dsimp only at h
  split at h
  · rename_i ht
    cases h
    exact .noTemplate (Federated.templateVersion?_eq_none.mp ht)
  · split at h
    · rename_i record hf
      split at h
      · rename_i hs
        cases h
        exact .malformedStatus record hf hs
      · split at h <;> cases h
    · rename_i hf
      split at h
      · rename_i cause ho
        obtain ⟨htypes, rfl⟩ := Object.ownerReference_eq_error.mp ho
        cases h
        exact .noOwner hf htypes
      · cases h

/-- With any reason for it an update is refused, be it for another one. -/
theorem Refusal.prepare {e : VersionError} (h : m.Refusal r e) : ∃ e', m.prepare r = .error e' := by
  cases ht : Federated.templateVersion? r.resource with
  | none => exact ⟨.noTemplate r.resource, by simp only [VersionManager.prepare, ht]⟩
  | some template =>
    cases h with
    | noTemplate hnone =>
      rw [Federated.templateVersion?_eq_none.mpr hnone] at ht
      cases ht
    | malformedStatus record hf hs =>
      exact ⟨.malformedStatus m.recordType, by simp only [VersionManager.prepare, ht, hf, hs]⟩
    | noOwner hf htypes =>
      have ho := Object.ownerReference_eq_error.mpr ⟨htypes, rfl⟩
      exact ⟨.noOwner .missingType, by simp only [VersionManager.prepare, ht, hf, ho]⟩

theorem not_refusal_of_prepare {p : VersionManager × Option Object} (h : m.prepare r = .ok p) :
    ¬ ∃ e, m.Refusal r e := by
  rintro ⟨e, hr⟩
  obtain ⟨e', he⟩ := hr.prepare
  cases h.symm.trans he

end VersionManager

/-- An update ends with an error and without a call exactly if the resource has no template, the
status of the cached record cannot be read, or no record is cached and the resource has no type.
It then ends with its first step, which leaves the cache and the store as they are, and its error
tells the reason. All this goes for whatever is cached and stored, and whatever else goes on. -/
theorem refused_before_calls {s : Docket} {i : Nat} {r : UpdateRequest}
    (hi : s.matters[i]? = some ⟨.inl (.updating (.preparing r)), []⟩) (now : Time) :
    let t := s.step (.go i now)
    (∀ events reply calls, (t.run events).matters[i]? = some ⟨.inr reply, calls⟩ →
      ((calls = [] ∧ ∃ e, reply = .updated (.error e)) ↔ ∃ e, s.site.manager.Refusal r e)) ∧
    ((∃ e, s.site.manager.Refusal r e) → t.site = s.site ∧ ∃ e, s.site.manager.Refusal r e ∧
      ∀ events, (t.run events).matters[i]? = some ⟨.inr (.updated (.error e)), []⟩) := by
  intro t
  have ho : s.Opened i r t := Docket.opened hi now
  cases ho with
  | @refused e hp hsite ht =>
    have hr := VersionManager.refusal_of_prepare hp
    refine ⟨?_, fun _ => ⟨hsite, e, hr, Docket.ended_run ht⟩⟩
    intro events reply calls hend
    rw [Docket.ended_run ht] at hend
    cases hend
    exact iff_of_true ⟨rfl, e, rfl⟩ ⟨e, hr⟩
  | idle hp hsite ht =>
    have hnone := VersionManager.not_refusal_of_prepare hp
    refine ⟨?_, fun h => absurd h hnone⟩
    intro events reply calls hend
    rw [Docket.ended_run ht] at hend
    cases hend
    refine iff_of_false ?_ hnone
    rintro ⟨-, e, he⟩
    cases he
  | changed hp hsite ht =>
    have hnone := VersionManager.not_refusal_of_prepare hp
    refine ⟨?_, fun h => absurd h hnone⟩
    intro events reply calls hend
    exact iff_of_false (fun h => Docket.Opened.calls_ne_nil ht hend h.1) hnone

namespace Sample

/-- A record whose status names a cluster without a version. -/
def unreadableRecord : Object :=
  { record with
    data := .object [("status", .object [("clusterVersions",
      .array [.object [("clusterName", .string "c1")]])])] }

/-- An update is about to begin, with such a record in the cache. -/
def refusing : Docket :=
  ⟨⟨synced.manager.cache ⟨"apps", "deployment-web"⟩ unreadableRecord, synced.store⟩,
    [⟨.inl (.updating (.preparing (request "1"))), []⟩]⟩

theorem refusal : refusing.site.manager.Refusal (request "1")
    (.malformedStatus refusing.site.manager.recordType) := by
  refine .malformedStatus unreadableRecord ?_ (by decide +kernel)
  refine (VersionManager.find?_cache _ _ _).trans (if_pos ?_)
  decide +kernel

end Sample

/-- Whatever goes on after it, the first step has ended the update and changed nothing. -/
theorem refused_before_calls_sample :
    Sample.refusing.matters[0]? = some ⟨.inl (.updating (.preparing (Sample.request "1"))), []⟩ ∧
    (Sample.refusing.step (.go 0 0)).site = Sample.refusing.site ∧ ∃ e, ∀ events,
      ((Sample.refusing.step (.go 0 0)).run events).matters[0]? =
        some ⟨.inr (.updated (.error e)), []⟩ := by
  have hi : Sample.refusing.matters[0]? =
      some ⟨.inl (.updating (.preparing (Sample.request "1"))), []⟩ := rfl
  obtain ⟨-, hrefused⟩ := refused_before_calls hi 0
  obtain ⟨hsite, e, -, hends⟩ := hrefused ⟨_, Sample.refusal⟩
  exact ⟨hi, hsite, e, hends⟩

end FedTrack
