import FedTrack.Proofs.Store.Twin
import FedTrack.Proofs.Version.Confined

namespace FedTrack

open MemoryStore

variable {N : Name → Prop} {s t : MemoryStore}

theorem RecordType.status?_of_core {o p : Object} (h : o.core = p.core) : status? o = status? p :=
  status?_congr (by rw [Object.data_of_core h])

theorem MemoryStore.Answering.versions {a b : Answer} (h : Answering N s t (.ok a) (.ok b)) :
    Tied N s t (Write.versionOf a) (Write.versionOf b) := by
  cases h with
  | listed _ => exact .neither
  | found h =>
    rcases rel_cases h with ⟨rfl, rfl⟩ | ⟨o, p, rfl, rfl, ha⟩
    · exact .neither
    · exact ha.tied.filter
  | stored ha => exact ha.tied.filter

namespace VersionManager

variable {m m' : VersionManager}

/-- Two managers, over two stores, that have the same to say of the resources whose records go by
names with the property `N`. -/
structure Twin (N : Name → Prop) (s t : MemoryStore) (m m' : VersionManager) : Prop where
  setup : m'.setup = m.setup
  alike : ∀ key, N key → Option.Rel (Alike N s t) (m.records.find? key) (m'.records.find? key)

namespace Twin

theorem onward {s' t' : MemoryStore} (h : Twin N s t m m') (ha : Abreast N s t s' t') :
    Twin N s' t' m m' :=
  ⟨h.setup, fun key hk => rel_imp (h.alike key hk) fun _ _ => ha.alike⟩

theorem get (h : Twin N s t m m') {resource : Object} (hn : N (m.recordName resource.name)) :
    m'.get resource = m.get resource := by
  refine get_congr h.setup ?_
  rw [recordName_congr h.setup, face?, face?]
  rcases rel_cases (h.alike _ hn) with ⟨hm, hm'⟩ | ⟨o, p, hm, hm', ha⟩
  · rw [hm, hm']
  · have hface : RecordType.face o = RecordType.face p :=
      RecordType.face_eq.mpr
        ⟨Object.name_of_core ha.core, RecordType.status?_of_core ha.core⟩
    rw [hm, hm', Option.map_some, Option.map_some, hface]

theorem cache (h : Twin N s t m m') (key : Name) {o p : Object} (ha : Alike N s t o p) :
    Twin N s t (m.cache key o) (m'.cache key p) := by
  refine ⟨h.setup, ?_⟩
  intro other hn
  rw [find?_cache, find?_cache]
  split
  · exact .some ha
  · exact h.alike other hn

theorem adopt (h : Twin N s t m m') (key : Name) {v w : Option String} (hvw : Tied N s t v w) :
    Twin N s t (m.adopt key v) (m'.adopt key w) := by
  refine ⟨by rw [setup_adopt, setup_adopt, h.setup], ?_⟩
  intro other hn
  rw [find?_adopt, find?_adopt]
  split
  · rcases rel_cases (h.alike other hn) with ⟨hm, hm'⟩ | ⟨o, p, hm, hm', ha⟩
    · rw [hm, hm']
      exact .none
    · rw [hm, hm']
      exact .some ⟨ha.core, hvw⟩
  · exact h.alike other hn

theorem delete (h : Twin N s t m m') (n : Name) : Twin N s t (m.delete n) (m'.delete n) := by
  refine ⟨h.setup, ?_⟩
  intro key hk
  rw [find?_delete, find?_delete, recordName_congr h.setup]
  split
  · exact .none
  · exact h.alike key hk

theorem owns (h : Twin N s t m m') (n : Name) : m'.owns n = m.owns n := by
  obtain ⟨hk, -, -⟩ := setup_iff.mp h.setup
  simp only [VersionManager.owns, hk]

theorem load (h : Twin N s t m m') {l l' : List Object}
    (hl : Answering N s t (.ok (.objects l)) (.ok (.objects l'))) :
    Twin N s t (m.load l) (m'.load l') := by
  refine ⟨h.setup, ?_⟩
  intro key hk
  cases hl with
  | listed hl =>
    have hfilter (m : VersionManager) (l : List Object) :
        (l.filter fun o => m.owns o.name ∧ o.name = key) =
          if m.owns key then l.filter fun o => o.name = key else [] := by
      split
      · rename_i ho
        refine List.filter_congr ?_
        intro o _
        by_cases he : o.name = key
        · simp [he, ho]
        · simp [he]
      · rename_i ho
        refine List.filter_eq_nil_iff.mpr ?_
        intro o _ hboth
        simp only [decide_eq_true_eq] at hboth
        exact ho (hboth.2 ▸ hboth.1)
    rw [find?_load, find?_load, hfilter, hfilter, h.owns]
    split
    · rcases rel_cases (hl key hk) with ⟨hn, hn'⟩ | ⟨o, p, ho, hp, ha⟩
      · rw [hn, hn']
        exact h.alike key hk
      · rw [ho, hp]
        exact .some ha
    · exact h.alike key hk

/-- The first part of an update comes to the same. -/
theorem prepare (h : Twin N s t m m') {r : UpdateRequest}
    (hn : N (m.recordName r.resource.name)) :
    (∃ e, m.prepare r = .error e ∧ m'.prepare r = .error e) ∨
    (m.prepare r = .ok (m, none) ∧ m'.prepare r = .ok (m', none)) ∨
    ∃ o p, Alike N s t o p ∧
      m.prepare r = .ok (m.cache (m.recordName r.resource.name) o, some o) ∧
      m'.prepare r = .ok (m'.cache (m.recordName r.resource.name) p, some p) := by
  obtain ⟨-, -, htype⟩ := setup_iff.mp h.setup
  have hkey := recordName_congr h.setup r.resource.name
  cases ht : Federated.templateVersion? r.resource with
  | none =>
    refine Or.inl ⟨.noTemplate r.resource, ?_, ?_⟩
    · simp only [VersionManager.prepare, ht]
    · simp only [VersionManager.prepare, ht]
  | some template =>
    rcases rel_cases (h.alike _ hn) with ⟨hm, hm'⟩ | ⟨o, p, hm, hm', ha⟩
    · cases ho : r.resource.ownerReference with
      | error e =>
        refine Or.inl ⟨.noOwner e, ?_, ?_⟩
        · simp only [VersionManager.prepare, ht, hm, ho]
        · simp only [VersionManager.prepare, ht, hkey, hm', ho]
      | ok owner =>
        have hnew (status : VersionStatus) :
            Alike N s t (m.recordType.newRecord (m.recordName r.resource.name) owner status)
              (m.recordType.newRecord (m.recordName r.resource.name) owner status) :=
          ⟨rfl, .neither⟩
        refine Or.inr (Or.inr ⟨_, _, hnew (updatedStatus none template
          (Federated.overrideVersion r.resource) r.selected r.versions), ?_, ?_⟩)
        · simp only [VersionManager.prepare, ht, hm, ho, VersionManager.cache]
        · simp only [VersionManager.prepare, ht, hkey, hm', ho, VersionManager.cache, htype]
    · have hstatus := RecordType.status?_of_core ha.core
      cases hs : RecordType.status? o with
      | none =>
        rw [hs] at hstatus
        refine Or.inl ⟨.malformedStatus m.recordType, ?_, ?_⟩
        · simp only [VersionManager.prepare, ht, hm, hs]
        · simp only [VersionManager.prepare, ht, hkey, hm', ← hstatus, htype]
      | some old =>
        rw [hs] at hstatus
        generalize hnew : updatedStatus (some old) template (Federated.overrideVersion r.resource)
          r.selected r.versions = status
        cases he : old.equivalent status with
        | true =>
          refine Or.inr (Or.inl ⟨?_, ?_⟩)
          · simp only [VersionManager.prepare, ht, hm, hs, hnew, he, if_true]
          · simp only [VersionManager.prepare, ht, hkey, hm', ← hstatus, hnew, he, if_true]
        | false =>
          have hboth : Alike N s t (RecordType.setStatus o status) (RecordType.setStatus p status) := by
            refine ⟨?_, ha.tied⟩
            rw [RecordType.setStatus, RecordType.setStatus, ← Object.data_of_core ha.core]
            exact Object.core_withData ha.core _
          refine Or.inr (Or.inr ⟨_, _, hboth, ?_, ?_⟩)
          · simp only [VersionManager.prepare, ht, hm, hs, hnew, he, VersionManager.cache]
            rfl
          · simp only [VersionManager.prepare, ht, hkey, hm', ← hstatus, hnew, he,
              VersionManager.cache]
            rfl

end Twin

end VersionManager

/-- Stages of two writes that stand at the same point. -/
inductive WriteStage.Level (N : Name → Prop) (s t : MemoryStore) : WriteStage → WriteStage → Prop
  | same (stage : WriteStage) (h : ∀ version, stage ≠ .done (.ok version)) : Level N s t stage stage
  | done {v w : Option String} (h : Tied N s t v w) : Level N s t (.done (.ok v)) (.done (.ok w))

theorem WriteStage.Level.onward {s' t' : MemoryStore} {a b : WriteStage} (h : a.Level N s t b)
    (ha : Abreast N s t s' t') : a.Level N s' t' b := by
  cases h with
  | same _ hs => exact .same _ hs
  | done hv => exact .done (ha.tied hv)

namespace Write

variable {w w' : Write}

/-- Two writes of the same record that have met with the same so far. -/
structure Twin (N : Name → Prop) (s t : MemoryStore) (w w' : Write) : Prop where
  record : w.record.core = w'.record.core
  token : Tied N s t w.token w'.token
  refresh : w'.refresh = w.refresh
  poll : w'.poll = w.poll
  stage : w.stage.Level N s t w'.stage

theorem level_direction {v v' : Option String} (h : Tied N s t v v') :
    (direction v).Level N s t (direction v') := by
  cases h with
  | neither => exact .same .creating nofun
  | both hv hw h => exact .same .updating nofun

theorem level_opening {v v' : Option String} (h : Tied N s t v v') (refresh : Bool) :
    (opening v refresh).Level N s t (opening v' refresh) := by
  cases refresh with
  | true => exact .same .refreshing nofun
  | false => exact level_direction h

namespace Twin

theorem onward {s' t' : MemoryStore} (h : Twin N s t w w') (ha : Abreast N s t s' t') :
    Twin N s' t' w w' :=
  ⟨h.record, ha.tied h.token, h.refresh, h.poll, h.stage.onward ha⟩

theorem start {o p : Object} (h : Alike N s t o p) (now : Time) :
    Twin N s t (Write.start o now) (Write.start p now) :=
  ⟨h.core, h.tied.filter, rfl, rfl, level_direction h.tied.filter⟩

theorem wake (h : Twin N s t w w') : Twin N s t w.wake w'.wake := by
  obtain ⟨record, token, refresh, poll, stage⟩ := w
  obtain ⟨record', token', refresh', poll', stage'⟩ := w'
  obtain ⟨hrecord, htoken, hrefresh, hpoll, hstage⟩ := h
  dsimp only at hrefresh hpoll
  subst hrefresh hpoll
  cases hstage with
  | same _ hs =>
    cases stage with
    | sleeping wake => exact ⟨hrecord, htoken, rfl, rfl, level_opening htoken _⟩
    | refreshing => exact ⟨hrecord, htoken, rfl, rfl, .same _ hs⟩
    | creating => exact ⟨hrecord, htoken, rfl, rfl, .same _ hs⟩
    | updating => exact ⟨hrecord, htoken, rfl, rfl, .same _ hs⟩
    | done result => exact ⟨hrecord, htoken, rfl, rfl, .same _ hs⟩
  | done hv => exact ⟨hrecord, htoken, rfl, rfl, .done hv⟩

theorem retry (hrecord : w.record.core = w'.record.core) (htoken : Tied N s t w.token w'.token)
    (hrefresh : w'.refresh = w.refresh) (hpoll : w'.poll = w.poll) (now : Time) :
    Twin N s t (w.retry now) (w'.retry now) := by
  unfold Write.retry
  rw [hpoll]
  split
  · exact ⟨hrecord, htoken, hrefresh, rfl, .same _ nofun⟩
  · exact ⟨hrecord, htoken, hrefresh, rfl, .same _ nofun⟩

theorem retryUnlessForbidden (h : Twin N s t w w') {e e' : StoreError}
    (he : e = e' ∨ e.isForbidden = false ∧ e'.isForbidden = false) (now : Time) :
    Twin N s t (w.retryUnlessForbidden e now) (w'.retryUnlessForbidden e' now) := by
  have hretry := retry h.record h.token h.refresh h.poll now
  unfold Write.retryUnlessForbidden
  rcases he with rfl | ⟨he, he'⟩
  · split
    · exact ⟨h.record, h.token, h.refresh, h.poll, .same _ nofun⟩
    · exact hretry
  · rw [he, he']
    exact hretry

/-- Two writes take answers of success that cannot be told apart. -/
theorem answer_ok (h : Twin N s t w w') {a b : Answer} (ho : Answering N s t (.ok a) (.ok b))
    (now : Time) : Twin N s t (w.answer (.ok a) now) (w'.answer (.ok b) now) := by
  have hsame := h
  have hv := ho.versions
  obtain ⟨record, token, refresh, poll, stage⟩ := w
  obtain ⟨record', token', refresh', poll', stage'⟩ := w'
  obtain ⟨hrecord, htoken, hrefresh, hpoll, hstage⟩ := h
  dsimp only at hrefresh hpoll
  subst hrefresh hpoll
  cases hstage with
  | done hv => exact hsame
  | same _ hs =>
    cases stage with
    | refreshing => exact ⟨hrecord, hv, rfl, rfl, level_direction hv⟩
    | creating => exact ⟨hrecord, hv, rfl, rfl, .same .updating nofun⟩
    | updating => exact ⟨hrecord, htoken, rfl, rfl, .done hv⟩
    | sleeping wake => exact hsame
    | done result => exact hsame

/-- Two writes take errors of one kind. -/
theorem answer_error (h : Twin N s t w w') {e e' : StoreError}
    (hexists : e'.isAlreadyExists = e.isAlreadyExists) (hconflict : e'.isConflict = e.isConflict)
    (hmissing : e'.isNotFound = e.isNotFound)
    (hforbidden : e = e' ∨ e.isForbidden = false ∧ e'.isForbidden = false) (now : Time) :
    Twin N s t (w.answer (.error e) now) (w'.answer (.error e') now) := by
  have hsame := h
  obtain ⟨record, token, refresh, poll, stage⟩ := w
  obtain ⟨record', token', refresh', poll', stage'⟩ := w'
  obtain ⟨hrecord, htoken, hrefresh, hpoll, hstage⟩ := h
  dsimp only at hrecord htoken hrefresh hpoll
  subst hrefresh hpoll
  have again {v v' : Option String} {refresh : Bool} {stage stage' : WriteStage}
      (hv : Tied N s t v v') :
      Twin N s t (Write.retry ⟨record, v, refresh, poll', stage⟩ now)
        (Write.retry ⟨record', v', refresh, poll', stage'⟩ now) := by
    refine retry ?_ ?_ ?_ ?_ now
    · exact hrecord
    · exact hv
    · rfl
    · rfl
  cases hstage with
  | done hv => exact hsame
  | same _ hs =>
    cases stage with
    | refreshing => exact again htoken
    | creating =>
      dsimp only [Write.answer]
      rw [hexists]
      split
      · exact again .neither
      · exact hsame.retryUnlessForbidden hforbidden now
    | updating =>
      dsimp only [Write.answer]
      rw [hconflict, hmissing]
      split
      · exact again htoken
      · split
        · exact again .neither
        · exact hsame.retryUnlessForbidden hforbidden now
    | sleeping wake => exact hsame
    | done result => exact hsame

/-- Two writes take answers that cannot be told apart. -/
theorem answer (h : Twin N s t w w') {outcome outcome' : Outcome}
    (ho : Answering N s t outcome outcome') (now : Time) :
    Twin N s t (w.answer outcome now) (w'.answer outcome' now) := by
  cases ho with
  | listed hl => exact h.answer_ok (.listed hl) now
  | found hf => exact h.answer_ok (.found hf) now
  | stored ha => exact h.answer_ok (.stored ha) now
  | failed e => exact h.answer_error rfl rfl rfl (Or.inl rfl) now
  | conflict m m' => exact h.answer_error rfl rfl rfl (Or.inr ⟨rfl, rfl⟩) now

end Twin

end Write

/-- Two managers with their stores that have the same to say of the resources whose records go by
names with the property `N`. -/
structure Site.Twin (N : Name → Prop) (x y : Site) : Prop where
  store : MemoryStore.Twin N x.store y.store
  manager : VersionManager.Twin N x.store y.store x.manager y.manager

/-- `x'` and `y'` come from `x` and `y` by steps that cannot be told apart. -/
structure Site.Abreast (N : Name → Prop) (x y x' y' : Site) : Prop where
  stores : MemoryStore.Abreast N x.store y.store x'.store y'.store
  twin : Site.Twin N x' y'

namespace Site

variable {x y : Site}

theorem abreast_managers (h : Site.Twin N x y) {m m' : VersionManager}
    (hm : VersionManager.Twin N x.store y.store m m') :
    Site.Abreast N x y ⟨m, x.store⟩ ⟨m', y.store⟩ :=
  ⟨.of_objects rfl rfl rfl rfl, h.store, hm⟩

theorem abreast_refl (h : Site.Twin N x y) : Site.Abreast N x y x y :=
  abreast_managers h h.manager

theorem abreast_call (h : Site.Twin N x y) {c d : Call}
    (hc : Matching N x.store y.store c d) :
    Site.Abreast N x y (x.call c).1 (y.call d).1 ∧
      Answering N (x.call c).1.store (y.call d).1.store (x.call c).2 (y.call d).2 := by
  have hk : y.kind = x.kind := kind_congr h.manager.setup
  obtain ⟨ha, htwin, hanswer⟩ := h.store.perform x.kind hc
  unfold call
  rw [hk]
  exact ⟨⟨ha, htwin, h.manager.onward ha⟩, hanswer⟩

end Site

namespace UpdateStage

/-- Two updates that stand at the same point. -/
inductive Twin (N : Name → Prop) (s t : MemoryStore) : UpdateStage → UpdateStage → Prop
  | preparing (r : UpdateRequest) : Twin N s t (.preparing r) (.preparing r)
  | writing (name : Name) {w w' : Write} (h : w.Twin N s t w') :
      Twin N s t (.writing name w) (.writing name w')
  | adopting (name : Name) {v w : Option String} (h : Tied N s t v w) :
      Twin N s t (.adopting name v) (.adopting name w)
  | finished (result : Except VersionError Unit) : Twin N s t (.finished result) (.finished result)

theorem Twin.onward {s' t' : MemoryStore} {u v : UpdateStage} (h : Twin N s t u v)
    (ha : MemoryStore.Abreast N s t s' t') : Twin N s' t' u v := by
  cases h with
  | preparing r => exact .preparing r
  | writing name hw => exact .writing name (hw.onward ha)
  | adopting name hv => exact .adopting name (ha.tied hv)
  | finished result => exact .finished result

theorem twin_afterWrite {m m' : VersionManager} (hm : m'.recordType = m.recordType) (name : Name)
    {w w' : Write} (h : w.Twin N s t w') :
    Twin N s t (afterWrite m name w) (afterWrite m' name w') := by
  have hstage := h.stage
  unfold afterWrite
  rw [hm]
  generalize w.stage = a at hstage
  generalize w'.stage = b at hstage
  cases hstage with
  | done hv => exact .adopting name hv
  | same a ha =>
    split
    · rename_i version
      exact absurd rfl (ha version)
    · exact .finished _
    · exact .writing name h

theorem calls_twin {name : Name} {w w' : Write} (h : w.Twin N s t w') (hname : N name)
    (hrecord : N w.record.name) :
    (w.call? name = none ∧ w'.call? name = none) ∨
      ∃ c d, w.call? name = some c ∧ w'.call? name = some d ∧ Matching N s t c d := by
  have hstage := h.stage
  unfold Write.call?
  generalize w.stage = a at hstage
  generalize w'.stage = b at hstage
  cases hstage with
  | done hv => exact Or.inl ⟨rfl, rfl⟩
  | same a ha =>
    cases a with
    | refreshing => exact Or.inr ⟨_, _, rfl, rfl, .get hname⟩
    | creating => exact Or.inr ⟨_, _, rfl, rfl, .create hrecord h.record⟩
    | updating => exact Or.inr ⟨_, _, rfl, rfl, .updateStatus hrecord ⟨h.record, h.token⟩⟩
    | sleeping wake => exact Or.inl ⟨rfl, rfl⟩
    | done result => exact Or.inl ⟨rfl, rfl⟩

/-- Two updates that stand at the same point take the same step. -/
theorem step_abreast (now : Time) {x y : Site} (h : Site.Twin N x y) {u v : UpdateStage}
    (hu : Twin N x.store y.store u v) (hin : u.Within N x.manager) :
    Site.Abreast N x y (step now x u).1 (step now y v).1 ∧
      Twin N (step now x u).1.store (step now y v).1.store (step now x u).2 (step now y v).2 := by
  cases hu with
  | preparing r =>
    have hkey := VersionManager.recordName_congr h.manager.setup r.resource.name
    rcases h.manager.prepare hin.1 with ⟨e, hx, hy⟩ | ⟨hx, hy⟩ | ⟨o, p, ha, hx, hy⟩
    · simp only [step, prepare, hx, hy]
      exact ⟨Site.abreast_refl h, .finished _⟩
    · simp only [step, prepare, hx, hy]
      exact ⟨Site.abreast_refl h, .finished _⟩
    · have hm := h.manager.cache (x.manager.recordName r.resource.name) ha
      have hxk := VersionManager.recordName_congr (VersionManager.setup_cache
        (m := x.manager) (x.manager.recordName r.resource.name) o) r.resource.name
      have hyk := (VersionManager.recordName_congr hm.setup r.resource.name).trans hxk
      simp only [step, prepare, hx, hy, hxk, hyk]
      exact ⟨Site.abreast_managers h hm, .writing _ (.start ha now)⟩
  | @writing name w w' hw =>
    obtain ⟨-, -, htype⟩ := VersionManager.setup_iff.mp h.manager.setup
    rcases calls_twin hw hin.1 hin.2 with ⟨hc, hd⟩ | ⟨c, d, hc, hd, hcd⟩
    · simp only [step, hc, hd]
      exact ⟨Site.abreast_refl h, .writing name hw.wake⟩
    · obtain ⟨ha, hanswer⟩ := Site.abreast_call h hcd
      simp only [step, hc, hd]
      refine ⟨ha, twin_afterWrite htype name ?_⟩
      exact (hw.onward ha.stores).answer hanswer now
  | adopting name hv =>
    exact ⟨Site.abreast_managers h (h.manager.adopt name hv), .finished _⟩
  | finished result => exact ⟨Site.abreast_refl h, .finished result⟩

end UpdateStage

end FedTrack
