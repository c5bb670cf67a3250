import FedTrack.Proofs.Version.Docket
import FedTrack.Proofs.Version.Runs

namespace FedTrack

/-- The version that an update leaves a cluster with: the new one, or else the old one if the
cluster is selected. An empty version is none. -/
def UpdateRequest.merged? (r : UpdateRequest) (old : VersionMap) (cluster : String) :
    Option String :=
  ((r.versions.find? cluster).or
    (if cluster ∈ r.selected then old.find? cluster else none)).filter (· ≠ "")

namespace VersionManager

variable {m m' : VersionManager} {r : UpdateRequest}

/-- The cached record states just what an update is to record. -/
def Unchanged (m : VersionManager) (r : UpdateRequest) : Prop :=
  ∃ status, m.status? (m.recordName r.resource.name) = some status ∧
    Federated.templateVersion? r.resource = some status.template ∧
    Federated.overrideVersion r.resource = status.override ∧
    ∀ cluster, status.versionMap.find? cluster = r.merged? status.versionMap cluster

theorem equivalent_updatedStatus_iff {old : VersionStatus} (hd : old.Distinct) {template : String} :
    old.equivalent (updatedStatus (some old) template (Federated.overrideVersion r.resource)
        r.selected r.versions) = true ↔
      (old.template = template ∧ old.override = Federated.overrideVersion r.resource) ∧
        ∀ cluster, old.versionMap.find? cluster = r.merged? old.versionMap cluster := by
  rw [VersionStatus.equivalent_iff_version? hd (distinct_updatedStatus _ _ _ _ _)]
  refine (and_congr_left' VersionStatus.isFor_iff).trans (and_congr_right fun hsame => ?_)
  have hfor : old.isFor template (Federated.overrideVersion r.resource) = true :=
    VersionStatus.isFor_iff.mpr hsame
  apply forall_congr'
  intro cluster
  rw [version?_updatedStatus, Option.filter_some, if_pos hfor, Option.bind_some,
    VersionStatus.version?_eq_find?_versionMap hd, UpdateRequest.merged?]

theorem idle_iff_unchanged (hd : ∀ status, m.status? (m.recordName r.resource.name) = some status →
    status.Distinct) : m.prepare r = .ok (m, none) ↔ m.Unchanged r := by
  rw [prepare_eq_none_iff]
  constructor
  · rintro ⟨old, asked, hasked, hold, heq⟩
    obtain ⟨template, ht, rfl⟩ := Option.map_eq_some_iff.mp hasked
    rw [hold] at heq
    obtain ⟨⟨rfl, ho⟩, hv⟩ := (equivalent_updatedStatus_iff (hd old hold)).mp heq
    exact ⟨old, hold, ht, ho.symm, hv⟩
  · rintro ⟨old, hold, ht, ho, hv⟩
    refine ⟨old, _, ?_, hold, (equivalent_updatedStatus_iff (hd old hold)).mpr ⟨⟨rfl, ho.symm⟩, hv⟩⟩
    rw [asked?, ht, hold]
    rfl

theorem not_idle_of_changed {record : Object} (h : m.prepare r = .ok (m', some record)) :
    m.prepare r ≠ .ok (m, none) := by
  intro hidle
  have hrecord : some record = none := (Prod.mk.inj (Except.ok.inj (h.symm.trans hidle))).2
  cases hrecord

/-- As long as a manager keeps the status that an update has cached, the update has nothing to do
any more. -/
theorem prepare_again {m'' : VersionManager} {record : Option Object}
    (h : m.prepare r = .ok (m', record)) (hs : m''.setup = m'.setup)
    (hstatus : m''.status? (m.recordName r.resource.name) =
      m'.status? (m.recordName r.resource.name)) : m''.prepare r = .ok (m'', none) := by
  have hname : m''.recordName r.resource.name = m.recordName r.resource.name :=
    recordName_congr (hs.trans (setup_prepare h)) _
  rw [prepare_eq_none_iff]
  cases record with
  | none =>
    obtain ⟨rfl, old, asked, hasked, hold, heq⟩ := prepare_none h
    refine ⟨old, asked, ?_, ?_, heq⟩
    · rw [asked?, hname, hstatus]
      exact hasked
    · rw [hname, hstatus, hold]
  | some record =>
    obtain ⟨rfl, -, asked, hasked, hrecord⟩ := prepare_some h
    have hcached : (m.cache (m.recordName r.resource.name) record).status?
        (m.recordName r.resource.name) = some asked := by
      rw [status?, find?_cache, if_pos rfl]
      exact hrecord
    obtain ⟨template, ht, rfl⟩ := Option.map_eq_some_iff.mp hasked
    refine ⟨_, _, ?_, ?_, equivalent_updatedStatus (m.status? (m.recordName r.resource.name))
      template (Federated.overrideVersion r.resource) r.selected r.versions⟩
    · rw [asked?, ht, hname, hstatus, hcached]
      rfl
    · rw [hname, hstatus, hcached]

end VersionManager

/-- An update past its first part. -/
inductive Errand.Late : Errand ⊕ Reply → Prop
  | writing (name : Name) (w : Write) : Late (.inl (.updating (.writing name w)))
  | adopting (name : Name) (version : Option String) :
      Late (.inl (.updating (.adopting name version)))
  | ended (result : Except VersionError Unit) : Late (.inr (.updated result))

/-- All it still does to the cache is to take note of a resource version. -/
theorem Errand.Late.step {e : Errand} (h : Late (.inl e)) (now : Time) (x : Site) :
    Late (e.step now x).2 ∧
      ∀ key, (e.step now x).1.manager.status? key = x.manager.status? key := by
  cases h with
  | writing name w =>
    rw [step_updating]
    have hw := UpdateStage.step_writing now x name w
    generalize UpdateStage.step now x (.writing name w) = z at hw ⊢
    cases hw with
    | @on y w' hm _ _ => exact ⟨.writing name w', fun key => congrArg (·.status? key) hm⟩
    | failed hm _ => exact ⟨.ended _, fun key => congrArg (·.status? key) hm⟩
    | @saved y version hm _ =>
      exact ⟨.adopting name version, fun key => congrArg (·.status? key) hm⟩
  | adopting name version =>
    exact ⟨.ended _, fun key => VersionManager.status?_adopt x.manager name key version⟩

namespace Docket

variable {s : Docket} {i : Nat} {r : UpdateRequest}

/-- The status of the record of `r` is changed by nobody but the `i`th call. -/
def Undisturbed (i : Nat) (r : UpdateRequest) (s : Docket) : List DocketEvent → Prop
  | [] => True
  | event :: rest =>
    ((∃ now, event = .go i now) ∨
      (s.step event).site.manager.status? (s.site.key r) = s.site.manager.status? (s.site.key r)) ∧
    Undisturbed i r (s.step event) rest

/-- Nobody else does if no other call is at work. -/
theorem undisturbed_of_alone {events : List DocketEvent} (h : ∀ j now, .go j now ∈ events → j = i) :
    s.Undisturbed i r events := by
  induction events generalizing s with
  | nil => trivial
  | cons event rest ih =>
    refine ⟨?_, ih fun j now hm => h j now (List.mem_cons_of_mem _ hm)⟩
    cases event with
    | meddle m => exact Or.inr rfl
    | ask d => exact Or.inr rfl
    | go j now =>
      obtain rfl := h j now List.mem_cons_self
      exact Or.inl ⟨now, rfl⟩

/-- How far the `i`th call, an update of `r`, is: past its first part it leaves nothing to do for
another one, unless it was refused. -/
inductive Settling (s : Docket) (i : Nat) (r : UpdateRequest) : Prop
  | waiting (h : s.matters[i]? = some ⟨.inl (.updating (.preparing r)), []⟩)
  | refused (e : VersionError) (h : s.matters[i]? = some ⟨.inr (.updated (.error e)), []⟩)
  | late (a : Matter) (h : s.matters[i]? = some a) (hlate : Errand.Late a.stands)
      (hidle : s.site.manager.prepare r = .ok (s.site.manager, none))

theorem Settling.go (h : s.Settling i r) (now : Time) : (s.step (.go i now)).Settling i r := by
  cases h with
  | waiting h =>
    cases Docket.opened h now with
    | refused hp hsite ht => exact .refused _ ht
    | idle hp hsite ht =>
      rw [← hsite] at hp
      exact .late _ ht (.ended _) hp
    | changed hp hsite ht =>
      refine .late _ ht (.writing _ _) ?_
      rw [hsite]
      exact VersionManager.prepare_again hp rfl rfl
  | refused e h =>
    rw [step_go_ended h]
    exact .refused e h
  | late a h hlate hidle =>
    obtain ⟨stands, calls⟩ := a
    cases stands with
    | inl e =>
      obtain ⟨hlate', hstatus⟩ := hlate.step now s.site
      refine .late _ (matters_go h now) hlate' ?_
      rw [step_go h]
      exact VersionManager.prepare_again hidle (Errand.setup_step now s.site e) (hstatus _)
    | inr reply =>
      rw [step_go_ended h]
      exact .late _ h hlate hidle

theorem Settling.step (h : s.Settling i r) {event : DocketEvent}
    (hevent : (∃ now, event = .go i now) ∨
      (s.step event).site.manager.status? (s.site.key r) = s.site.manager.status? (s.site.key r)) :
    (s.step event).Settling i r := by
  by_cases hgo : ∃ now, event = .go i now
  · obtain ⟨now, rfl⟩ := hgo
    exact h.go now
  · have hstatus := hevent.resolve_left hgo
    have hsame {a : Matter} (ha : s.matters[i]? = some a) :
        (s.step event).matters[i]? = some a := by
      rcases matters_step ha event with hsame | ⟨-, now, rfl, -⟩
      · exact hsame
      · exact absurd ⟨now, rfl⟩ hgo
    cases h with
    | waiting h => exact .waiting (hsame h)
    | refused e h => exact .refused e (hsame h)
    | late a h hlate hidle =>
      exact .late a (hsame h) hlate
        (VersionManager.prepare_again hidle (setup_step s event) hstatus)

theorem Settling.run (h : s.Settling i r) {events : List DocketEvent}
    (hevents : Undisturbed i r s events) : (s.run events).Settling i r := by
  induction events generalizing s with
  | nil => exact h
  | cons event rest ih => exact ih (h.step hevents.1) hevents.2

/-- After a success there is nothing to do. -/
theorem Settling.idle (h : s.Settling i r) {calls : List Call}
    (hend : s.matters[i]? = some ⟨.inr (.updated (.ok ())), calls⟩) :
    s.site.manager.prepare r = .ok (s.site.manager, none) := by
  cases h with
  | waiting h => cases hend.symm.trans h
  | refused e h => cases hend.symm.trans h
  | late a h hlate hidle => exact hidle

/-- With the step from `s` to `t` the `i`th call, an update, has succeeded: without calling the
store and without changing anything. -/
def Spared (i : Nat) (s t : Docket) : Prop :=
  t.site = s.site ∧ ∀ later, (t.run later).matters[i]? = some ⟨.inr (.updated (.ok ())), []⟩

theorem spared_of_idle (hi : s.matters[i]? = some ⟨.inl (.updating (.preparing r)), []⟩)
    (hidle : s.site.manager.prepare r = .ok (s.site.manager, none)) (now : Time) :
    Spared i s (s.step (.go i now)) := by
  cases Docket.opened hi now with
  | refused hp _ _ => cases hidle.symm.trans hp
  | idle hp hsite ht => exact ⟨hsite, ended_run ht⟩
  | changed hp _ _ => exact absurd hidle (VersionManager.not_idle_of_changed hp)

/-- An update that is not refused calls the store, and changes the cache, unless it has nothing to
do. -/
theorem spared_iff_idle (hi : s.matters[i]? = some ⟨.inl (.updating (.preparing r)), []⟩)
    (now : Time) {events : List DocketEvent} {reply : Reply} {calls : List Call}
    (hend : ((s.step (.go i now)).run events).matters[i]? = some ⟨.inr reply, calls⟩)
    (hok : ¬ (calls = [] ∧ ∃ e, reply = .updated (.error e))) :
    (calls = [] ↔ s.site.manager.prepare r = .ok (s.site.manager, none)) ∧
      ((s.step (.go i now)).site = s.site ↔
        s.site.manager.prepare r = .ok (s.site.manager, none)) := by
  cases Docket.opened hi now with
  | refused _ _ ht =>
    rw [ended_run ht] at hend
    cases hend
    exact absurd ⟨rfl, _, rfl⟩ hok
  | idle hp hsite ht =>
    rw [ended_run ht] at hend
    cases hend
    exact ⟨iff_of_true rfl hp, iff_of_true hsite hp⟩
  | @changed record time hp hsite ht =>
    have hnot := VersionManager.not_idle_of_changed hp
    refine ⟨iff_of_false (Opened.calls_ne_nil ht hend) hnot, iff_of_false ?_ hnot⟩
    intro hsame
    -- The cache after an update leaves it nothing to do; it is the one before.
    apply hnot
    have hcache : s.site.manager = s.site.manager.cache (s.site.key r) record :=
      congrArg Site.manager (hsame.symm.trans hsite)
    exact VersionManager.prepare_again hp (congrArg VersionManager.setup hcache)
      (congrArg (·.status? (s.site.key r)) hcache)

end Docket

/-- If the cached record names no cluster twice, an update that is not refused calls the store, and
changes the cache, exactly if the record does not state what is to be recorded. Whatever the record
names: an update that has succeeded leaves nothing to do for the same update, as long as nobody else
changes the status of the record; nobody does if no other call is at work
(`Docket.undisturbed_of_alone`). -/
theorem writes_iff_changed {s : Docket} {i : Nat} {r : UpdateRequest}
    (hi : s.matters[i]? = some ⟨.inl (.updating (.preparing r)), []⟩) (now : Time) :
    let t := s.step (.go i now)
    ((∀ status, s.site.manager.status? (s.site.key r) = some status → status.Distinct) →
      (s.site.manager.Unchanged r → Docket.Spared i s t) ∧
      ∀ events reply calls, (t.run events).matters[i]? = some ⟨.inr reply, calls⟩ →
        ¬ (calls = [] ∧ ∃ e, reply = .updated (.error e)) →
        (calls = [] ↔ s.site.manager.Unchanged r) ∧
          (t.site = s.site ↔ s.site.manager.Unchanged r)) ∧
    ∀ events calls, s.Undisturbed i r events →
      (s.run events).matters[i]? = some ⟨.inr (.updated (.ok ())), calls⟩ →
      ∀ j time, (s.run events).matters[j]? = some ⟨.inl (.updating (.preparing r)), []⟩ →
        Docket.Spared j (s.run events) ((s.run events).step (.go j time)) := by
  intro t
  constructor
  · intro hd
    have hiff := VersionManager.idle_iff_unchanged hd
    constructor
    · intro hunchanged
      exact Docket.spared_of_idle hi (hiff.mpr hunchanged) now
    · intro events reply calls hend hok
      rw [← hiff]
      exact Docket.spared_iff_idle hi now hend hok
  · intro events calls hevents hend j time hj
    have hsettling := (Docket.Settling.waiting hi).run hevents
    exact Docket.spared_of_idle hj (hsettling.idle hend) time

namespace Sample

/-- The same update is asked for twice. -/
def asking : Docket :=
  ⟨synced, List.replicate 2 ⟨.inl (.updating (.preparing (request "1"))), []⟩⟩

/-- The first of the two has been made. -/
def answered : Docket := asking.run (List.replicate 4 (.go 0 0))

theorem undisturbed_asking : asking.Undisturbed 0 (request "1") (List.replicate 4 (.go 0 0)) := by
  apply Docket.undisturbed_of_alone
  intro j now hm
  cases List.eq_of_mem_replicate hm
  rfl

theorem distinct_answered (status : VersionStatus)
    (h : answered.site.manager.status? (answered.site.key (request "1")) = some status) :
    status.Distinct := by
  have hd : (answered.site.manager.status? (answered.site.key (request "1"))).all
      (fun status => status.Distinct) = true := by decide +kernel
  rw [h] at hd
  exact of_decide_eq_true hd

end Sample

/-- The first update calls the store twice, the second one finds its versions recorded. -/
theorem writes_iff_changed_sample :
    (∃ c d, Sample.answered.matters[0]? = some ⟨.inr (.updated (.ok ())), [c, d]⟩) ∧
    Sample.answered.site.manager.Unchanged (Sample.request "1") ∧
    Docket.Spared 1 Sample.answered (Sample.answered.step (.go 1 0)) := by
  have hi : Sample.asking.matters[0]? =
      some ⟨.inl (.updating (.preparing (Sample.request "1"))), []⟩ := rfl
  have hj : Sample.answered.matters[1]? =
      some ⟨.inl (.updating (.preparing (Sample.request "1"))), []⟩ := rfl
  have hend : ∃ c d, Sample.answered.matters[0]? = some ⟨.inr (.updated (.ok ())), [c, d]⟩ :=
    ⟨_, _, rfl⟩
  obtain ⟨c, d, hcalls⟩ := hend
  have hspared := (writes_iff_changed hi 0).2 _ _ Sample.undisturbed_asking hcalls 1 0 hj
  obtain ⟨-, hiff⟩ := (writes_iff_changed hj 0).1 Sample.distinct_answered
  have hunchanged := (hiff [] _ _ (hspared.2 []) (by simp)).1.mp rfl
  exact ⟨⟨c, d, hcalls⟩, hunchanged, hspared⟩

end FedTrack
