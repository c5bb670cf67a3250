import FedTrack.Proofs.Version.Runs

namespace FedTrack

/-- What is known of a resource: the digests of its template and overrides, and the version in
each cluster. -/
structure Known where
  template : String
  override : String
  version? : String → Option String

/-- What is known of each resource. -/
abbrev Book := Name → Option Known

namespace Known

def ofStatus (s : VersionStatus) : Known := ⟨s.template, s.override, s.version?⟩

/-- What was known counts if it was known of the same template and override. -/
def current (k : Option Known) (template override : String) : Option Known :=
  k.filter fun k => k.template == template && k.override == override

/-- A cluster has its new version, or its old one if it is selected; an empty version is none. -/
def updated (k : Option Known) (template override : String) (selected : List String)
    (new : VersionMap) : Known :=
  ⟨template, override, fun c =>
    ((new.find? c).or (if c ∈ selected then
      (current k template override).bind (·.version? c) else none)).filter (· ≠ "")⟩

end Known

namespace Book

/-- What the stored records in a scope say. -/
def ofStore (x : Site) : Book := fun n =>
  ((x.stored? (x.manager.recordName n)).filter fun _ =>
    MemoryStore.inScope x.manager.scope n).bind fun o => (RecordType.status? o).map Known.ofStatus

def step (b : Book) : Entry → Book
  | .update r _ _ => fun n =>
    if n = r.resource.name then
      (Federated.templateVersion? r.resource).map fun template =>
        Known.updated (b n) template (Federated.overrideVersion r.resource) r.selected r.versions
    else b n
  | .get _ => b
  | .delete d => fun n => if n = d then none else b n

def replay (b : Book) (l : List Entry) : Book := l.foldl step b

/-- The versions known of a resource with this template and its override. -/
def answer (b : Book) (resource : Object) (template : String) (cluster : String) : Option String :=
  (Known.current (b resource.name) template (Federated.overrideVersion resource)).bind
    (·.version? cluster)

theorem replay_concat (b : Book) (l : List Entry) (e : Entry) :
    b.replay (l ++ [e]) = (b.replay l).step e := by
  rw [replay, List.foldl_append]
  rfl

end Book

/-- Every cached record can be read and names no cluster twice. -/
def VersionManager.Readable (m : VersionManager) : Prop :=
  ∀ key o, m.records.find? key = some o → ∃ s, RecordType.status? o = some s ∧ s.Distinct

/-- A manager knows what the book says. -/
structure Tracks (m : VersionManager) (b : Book) : Prop where
  readable : m.Readable
  known : ∀ n, b n = (m.status? (m.recordName n)).map Known.ofStatus

theorem Known.current_ofStatus (s : Option VersionStatus) (template override : String) :
    current (s.map ofStatus) template override =
      (s.filter (·.isFor template override)).map ofStatus := by
  cases s with
  | none => rfl
  | some s =>
    simp only [current, Option.map_some, Option.filter_some, ofStatus, VersionStatus.isFor]
    split <;> rfl

/-- Equivalent statuses that name no cluster twice tell the same. -/
theorem Known.ofStatus_eq_of_equivalent {s t : VersionStatus} (hs : s.Distinct) (ht : t.Distinct)
    (h : s.equivalent t = true) : ofStatus s = ofStatus t := by
  obtain ⟨htemplate, hoverride, -⟩ := VersionStatus.equivalent_iff.mp h
  have hv : s.version? = t.version? := by
    funext c
    rw [VersionStatus.version?_eq_find?_versionMap hs,
      VersionStatus.version?_eq_find?_versionMap ht, VersionStatus.versionMap_eq_of_equivalent hs h]
  rw [ofStatus, ofStatus, htemplate, hoverride, hv]

namespace Tracks

variable {m : VersionManager} {b : Book} {r : UpdateRequest}

/-- An update asks for what the book is to say. -/
theorem asked (h : Tracks m b) {asked : VersionStatus} (ha : m.asked? r = some asked) :
    asked.Distinct ∧
      b.step (.update r none (.ok ())) r.resource.name = some (Known.ofStatus asked) := by
  cases ht : Federated.templateVersion? r.resource with
  | none =>
    rw [VersionManager.asked?, ht] at ha
    cases ha
  | some template =>
    rw [VersionManager.asked?, ht, Option.map_some] at ha
    cases ha
    refine ⟨VersionManager.distinct_updatedStatus _ _ _ _ _, ?_⟩
    simp only [Book.step, if_true, ht, Option.map_some, h.known]
    have hv : (VersionManager.updatedStatus (m.status? (m.recordName r.resource.name)) template
        (Federated.overrideVersion r.resource) r.selected r.versions).version? =
        (Known.updated ((m.status? (m.recordName r.resource.name)).map Known.ofStatus) template
          (Federated.overrideVersion r.resource) r.selected r.versions).version? := by
      funext c
      rw [VersionManager.version?_updatedStatus]
      simp only [Known.updated, Known.current_ofStatus, Option.bind_map]
      rfl
    rw [Known.ofStatus, hv]
    rfl

theorem adopt (h : Tracks m b) (key : Name) (version : Option String) :
    Tracks (m.adopt key version) b := by
  have hn := VersionManager.recordName_congr (VersionManager.setup_adopt (m := m) key version)
  constructor
  · intro other o ho
    rw [VersionManager.find?_adopt] at ho
    split at ho
    · obtain ⟨p, hp, rfl⟩ := Option.map_eq_some_iff.mp ho
      exact h.readable other p hp
    · exact h.readable other o ho
  · intro n
    rw [hn, VersionManager.status?_adopt]
    exact h.known n

theorem delete (h : Tracks m b) (d : Name) : Tracks (m.delete d) (b.step (.delete d)) := by
  have hn := VersionManager.recordName_congr (VersionManager.setup_delete (m := m) d)
  constructor
  · intro other o ho
    rw [VersionManager.find?_delete] at ho
    split at ho
    · cases ho
    · exact h.readable other o ho
  · intro n
    rw [hn, VersionManager.status?, VersionManager.find?_delete]
    by_cases hd : n = d
    · subst hd
      simp [Book.step]
    · have hk : m.recordName d ≠ m.recordName n := fun he => hd (m.recordName_injective he).symm
      simp only [Book.step, if_neg hd, if_neg hk]
      exact h.known n

/-- The record that an update puts in the cache is what the book is to say. -/
theorem cache (h : Tracks m b) {asked : VersionStatus} {record : Object}
    (ha : m.asked? r = some asked) (hs : RecordType.status? record = some asked) :
    Tracks (m.cache (m.recordName r.resource.name) record) (b.step (.update r none (.ok ()))) := by
  obtain ⟨hd, hb⟩ := h.asked ha
  constructor
  · intro other o ho
    rw [VersionManager.find?_cache] at ho
    split at ho
    · cases ho
      exact ⟨asked, hs, hd⟩
    · exact h.readable other o ho
  · intro n
    have hn := VersionManager.recordName_congr
      (VersionManager.setup_cache (m := m) (m.recordName r.resource.name) record) n
    rw [hn, VersionManager.status?, VersionManager.find?_cache]
    by_cases he : n = r.resource.name
    · subst he
      rw [hb, if_pos rfl, Option.bind_some, hs]
      rfl
    · have hk : m.recordName r.resource.name ≠ m.recordName n :=
        fun hr => he (m.recordName_injective hr).symm
      rw [if_neg hk]
      simp only [Book.step, if_neg he]
      exact h.known n

/-- An update that has nothing to do asks for what the book already says. -/
theorem idle (h : Tracks m b) {old asked : VersionStatus} (ha : m.asked? r = some asked)
    (hold : m.status? (m.recordName r.resource.name) = some old)
    (heq : old.equivalent asked = true) : Tracks m (b.step (.update r none (.ok ()))) := by
  obtain ⟨hd, hb⟩ := h.asked ha
  have hdold : old.Distinct := by
    obtain ⟨o, ho, hs⟩ := Option.bind_eq_some_iff.mp hold
    obtain ⟨s, hs', hdist⟩ := h.readable _ o ho
    rw [hs] at hs'
    cases hs'
    exact hdist
  refine ⟨h.readable, ?_⟩
  intro n
  by_cases he : n = r.resource.name
  · subst he
    rw [hb, hold, Option.map_some, Known.ofStatus_eq_of_equivalent hdold hd heq]
  · simp only [Book.step, if_neg he]
    exact h.known n

theorem updated {x y : Site} (h : Tracks x.manager b) (hu : Updated x r y (.ok ())) :
    Tracks y.manager (b.step (.update r none (.ok ()))) := by
  cases hu with
  | idle hp hm _ =>
    obtain ⟨-, old, asked, ha, hold, heq⟩ := VersionManager.prepare_none hp
    rw [hm]
    exact h.idle ha hold heq
  | written m record version hp hm _ =>
    obtain ⟨rfl, -, asked, ha, hs⟩ := VersionManager.prepare_some hp
    rw [hm]
    exact (h.cache ha hs).adopt _ version

end Tracks

theorem tracks_runs {x y : Site} {b : Book} {l : List Entry} (hx : Tracks x.manager b)
    (h : Runs x l y) (hok : ∀ e ∈ l, e.Succeeded) : Tracks y.manager (b.replay l) := by
  induction h with
  | start => exact hx
  | fault op f _ ih => exact ih hok
  | @update l y z r result _ hu ih =>
    obtain ⟨hl, he⟩ := List.forall_mem_append.mp hok
    have hr : result = .ok () := he _ (List.mem_singleton_self _)
    subst hr
    rw [Book.replay_concat]
    exact (ih hl).updated hu.updated
  | get resource _ ih =>
    rw [Book.replay_concat]
    exact ih (List.forall_mem_append.mp hok).1
  | delete n _ ih =>
    rw [Book.replay_concat]
    exact (ih (List.forall_mem_append.mp hok).1).delete n

/-- A sync leaves the manager with what the stored records say. -/
theorem tracks_sync {x y : Site} (h : SyncRun x y) (hnew : x.manager.records = .empty)
    (hfiled : x.store.Filed)
    (hread : ∀ name o, x.stored? name = some o → ∃ s, RecordType.status? o = some s ∧ s.Distinct) :
    Tracks y.manager (Book.ofStore x) := by
  have hn := VersionManager.recordName_congr h.setup
  constructor
  · intro key o ho
    obtain ⟨hs, -, -⟩ := (h.cached?_iff hfiled hnew).mp ho
    rw [h.stored?] at hs
    exact hread key o hs
  · intro n
    have hfind : y.manager.records.find? (x.manager.recordName n) =
        (x.stored? (x.manager.recordName n)).filter fun _ =>
          MemoryStore.inScope x.manager.scope n := by
      apply Option.ext
      intro o
      refine (h.cached?_iff hfiled hnew).trans ?_
      rw [h.stored?, Option.filter_eq_some_iff]
      constructor
      · rintro ⟨hs, -, hscope⟩
        exact ⟨hs, hscope⟩
      · rintro ⟨hs, hscope⟩
        exact ⟨hs, x.manager.owns_recordName n, hscope⟩
    rw [hn, VersionManager.status?, hfind, Book.ofStore, Option.map_bind]
    rfl

theorem Tracks.get {m : VersionManager} {b : Book} (h : Tracks m b) {resource : Object}
    {template : String} (ht : Federated.templateVersion? resource = some template) :
    ∃ v, m.get resource = .ok v ∧ ∀ c, v.find? c = b.answer resource template c := by
  have hb := h.known resource.name
  cases hf : m.records.find? (m.recordName resource.name) with
  | none =>
    refine ⟨.empty, by simp only [VersionManager.get, ht, hf], ?_⟩
    intro c
    rw [VersionManager.status?, hf] at hb
    rw [Book.answer, hb]
    rfl
  | some o =>
    obtain ⟨s, hs, hd⟩ := h.readable _ o hf
    have hget : m.get resource = .ok (if s.isFor template (Federated.overrideVersion resource) then
        s.versionMap else .empty) := by
      simp only [VersionManager.get, ht, hf, hs]
    refine ⟨_, hget, ?_⟩
    intro c
    rw [VersionManager.status?, hf, Option.bind_some, hs] at hb
    rw [Book.answer, hb, Known.current_ofStatus, Option.filter_some]
    cases hc : s.isFor template (Federated.overrideVersion resource) with
    | true => exact (VersionStatus.version?_eq_find?_versionMap hd c).symm
    | false => rfl

/-- A new manager that has synced, over any store that keeps each object under its own name and
whose records can be read and name no cluster twice, and that has then completed any calls of
which no update failed, answers like a book of what is known of each resource. -/
theorem get_eq_book {x y z : Site} {l : List Entry} {namespaced : Bool}
    {federatedKind targetKind : String} {scope : Option String}
    (hnew : x.manager = .new namespaced federatedKind targetKind scope) (hfiled : x.store.Filed)
    (hread : ∀ name o, x.stored? name = some o → ∃ s, RecordType.status? o = some s ∧ s.Distinct)
    (hsync : SyncRun x y) (hrun : Runs y l z) (hok : ∀ e ∈ l, e.Succeeded) {resource : Object}
    {template : String} (ht : Federated.templateVersion? resource = some template) :
    ∃ v, z.manager.get resource = .ok v ∧
      ∀ c, v.find? c = ((Book.ofStore x).replay l).answer resource template c := by
  have hempty : x.manager.records = .empty := by
    rw [hnew]
    rfl
  have hy := tracks_sync hsync hempty hfiled hread
  exact (tracks_runs hy hrun hok).get ht

theorem get_eq_book_sample : ∃ v,
    (Sample.update Sample.synced "1" 4).1.manager.get Sample.resource = .ok v ∧
      v.find? "c1" = some "1" := by
  have hrun := Runs.start.update Sample.update_synced
  have ht : Federated.templateVersion? Sample.resource =
      some (Json.object [("replicas", .string "1")]).digest := rfl
  obtain ⟨v, hv, hc⟩ := get_eq_book (by rfl) Sample.filed_start Sample.readable_start Sample.sync
    hrun (by simp [Entry.Succeeded]) ht
  refine ⟨v, hv, (hc "c1").trans ?_⟩
  decide +kernel

end FedTrack
