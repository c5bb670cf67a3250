import FedTrack.Proofs.Version.Course

namespace FedTrack

open MemoryStore

/-- What an update of `r` that began at `x` has done when it ends at `y`: it was refused, there
was nothing to do, the record is written, or the status of the record did not get into the
store. -/
inductive Updated (x : Site) (r : UpdateRequest) (y : Site) : Except VersionError Unit → Prop
  | refused (e : VersionError) (hp : x.manager.prepare r = .error e)
      (hm : y.manager = x.manager) (hs : y.store.objects = x.store.objects) :
      Updated x r y (.error e)
  | idle (hp : x.manager.prepare r = .ok (x.manager, none))
      (hm : y.manager = x.manager) (hs : y.store.objects = x.store.objects) :
      Updated x r y (.ok ())
  | written (m : VersionManager) (record : Object) (version : Option String)
      (hp : x.manager.prepare r = .ok (m, some record)) (hm : y.manager = m.adopt (x.key r) version)
      (hs : Saved x.kind record x.store y.store) : Updated x r y (.ok ())
  | lost (m : VersionManager) (record : Object) (cause : WriteFailure)
      (hp : x.manager.prepare r = .ok (m, some record)) (hm : y.manager = m)
      (hs : Opened x.kind record.name x.store y.store) :
      Updated x r y (.error (.notWritten m.recordType (x.key r) cause))

/-- Where an update of `r` that began at `x` can stand. -/
inductive Under (x : Site) (r : UpdateRequest) : Site × UpdateStage → Prop
  | preparing {y : Site} (hm : y.manager = x.manager) (hs : y.store.objects = x.store.objects) :
      Under x r (y, .preparing r)
  | writing {y : Site} {w : Write} (hp : x.manager.prepare r = .ok (y.manager, some w.record))
      (hs : Opened x.kind w.record.name x.store y.store) : Under x r (y, .writing (x.key r) w)
  | adopting {y : Site} {record : Object} {version : Option String}
      (hp : x.manager.prepare r = .ok (y.manager, some record))
      (hs : Saved x.kind record x.store y.store) : Under x r (y, .adopting (x.key r) version)
  | finished {y : Site} {result : Except VersionError Unit} (h : Updated x r y result) :
      Under x r (y, .finished result)

namespace Under

variable {x : Site} {r : UpdateRequest}

theorem step_preparing {y : Site} (now : Time) (hm : y.manager = x.manager)
    (hs : y.store.objects = x.store.objects) :
    Under x r (UpdateStage.step now y (.preparing r)) := by
  have hk : y.key r = x.key r := by rw [Site.key, hm, Site.key]
  have h := UpdateStage.step_preparing now y r
  generalize UpdateStage.step now y (.preparing r) = z at h
  cases h with
  | refused hp =>
    rw [hm] at hp
    exact .finished (.refused _ hp hm hs)
  | idle hp =>
    rw [hm] at hp
    exact .finished (.idle hp hm hs)
  | changed hp =>
    rw [hk, hm] at hp ⊢
    exact .writing hp (opened_of_objects _ _ hs)

theorem step_writing {y : Site} {w : Write} (now : Time)
    (hp : x.manager.prepare r = .ok (y.manager, some w.record))
    (hs : Opened x.kind w.record.name x.store y.store) :
    Under x r (UpdateStage.step now y (.writing (x.key r) w)) := by
  have hk : y.kind = x.kind := Site.kind_congr (VersionManager.setup_prepare hp)
  have h := UpdateStage.step_writing now y (x.key r) w
  generalize UpdateStage.step now y (.writing (x.key r) w) = z at h
  cases h with
  | on hm ho hw =>
    rw [hk] at ho
    refine .writing ?_ ?_
    · rw [hm, hw]
      exact hp
    · rw [hw]
      exact hs.trans ho
  | failed hm ho =>
    rw [hk] at ho
    exact .finished (.lost _ _ _ hp hm (hs.trans ho))
  | saved hm ho =>
    rw [hk] at ho
    refine .adopting ?_ (Saved.after hs ho)
    rw [hm]
    exact hp

theorem step {z : Site × UpdateStage} (now : Time) (h : Under x r z) :
    Under x r (UpdateStage.step now z.1 z.2) := by
  cases h with
  | preparing hm hs => exact step_preparing now hm hs
  | writing hp hs => exact step_writing now hp hs
  | @adopting y record version hp hs =>
    exact .finished (.written y.manager record version hp rfl hs)
  | finished h => exact .finished h

theorem fault {z : Site × UpdateStage} (op : Operation) (f : Fault) (h : Under x r z) :
    Under x r (z.1.failNext op f, z.2) := by
  cases h with
  | preparing hm hs => exact .preparing hm hs
  | writing hp hs => exact .writing hp (hs.trans (opened_of_objects _ _ rfl))
  | adopting hp hs =>
    obtain ⟨o, ho, hput⟩ := hs
    exact .adopting hp ⟨o, ho, hput⟩
  | finished h =>
    cases h with
    | refused e hp hm hs => exact .finished (.refused e hp hm hs)
    | idle hp hm hs => exact .finished (.idle hp hm hs)
    | written m record version hp hm hs =>
      obtain ⟨o, ho, hput⟩ := hs
      exact .finished (.written m record version hp hm ⟨o, ho, hput⟩)
    | lost m record cause hp hm hs =>
      exact .finished (.lost m record cause hp hm (hs.trans (opened_of_objects _ _ rfl)))

theorem course (turns : List Turn) :
    Under x r (Site.course UpdateStage.step turns (x, .preparing r)) :=
  Site.course_induction (fun op f _ h => h.fault op f) (fun now _ h => h.step now) turns
    (.preparing rfl rfl)

end Under

/-- An update of `r` that begins at `x` ends at `y`, with faults queued at any point. -/
def UpdateRun (x : Site) (r : UpdateRequest) (result : Except VersionError Unit) (y : Site) :
    Prop :=
  ∃ turns, Site.course UpdateStage.step turns (x, .preparing r) = (y, .finished result)

def UpdateStage.succeeded : UpdateStage → Bool
  | .finished (.ok ()) => true
  | _ => false

theorem UpdateStage.eq_of_succeeded {u : UpdateStage} (h : u.succeeded = true) :
    u = .finished (.ok ()) := by
  unfold succeeded at h
  split at h
  · rfl
  · cases h

theorem UpdateRun.of_succeeded {x : Site} {r : UpdateRequest} {turns : List Turn}
    (h : (Site.course UpdateStage.step turns (x, .preparing r)).2.succeeded = true) :
    UpdateRun x r (.ok ()) (Site.course UpdateStage.step turns (x, .preparing r)).1 := by
  refine ⟨turns, ?_⟩
  rw [← UpdateStage.eq_of_succeeded h]

theorem UpdateRun.updated {x y : Site} {r : UpdateRequest} {result : Except VersionError Unit}
    (h : UpdateRun x r result y) : Updated x r y result := by
  obtain ⟨turns, ht⟩ := h
  have hu := Under.course (x := x) (r := r) turns
  rw [ht] at hu
  cases hu with
  | finished h => exact h

namespace Site

theorem filed_call {x : Site} (h : x.store.Filed) (c : Call) : (x.call c).1.store.Filed :=
  filed_perform h x.kind c

theorem filed_step_update {z : Site × UpdateStage} (now : Time) (h : z.1.store.Filed) :
    (UpdateStage.step now z.1 z.2).1.store.Filed := by
  obtain ⟨x, stage⟩ := z
  cases stage with
  | writing name w =>
    cases hc : w.call? name with
    | none =>
      simp only [UpdateStage.step, hc]
      exact h
    | some c =>
      simp only [UpdateStage.step, hc]
      exact filed_call h c
  | preparing r => exact h
  | adopting name version => exact h
  | finished result => exact h

end Site

theorem UpdateRun.filed {x y : Site} {r : UpdateRequest} {result : Except VersionError Unit}
    (h : UpdateRun x r result y) (hx : x.store.Filed) : y.store.Filed := by
  obtain ⟨turns, ht⟩ := h
  have hf : (Site.course UpdateStage.step turns (x, .preparing r)).1.store.Filed :=
    Site.course_induction (P := fun z => z.1.store.Filed)
      (fun op f z hz => filed_congr (objects_failNext z.1.store op f) hz)
      (fun now _ hz => Site.filed_step_update now hz) turns hx
  rw [ht] at hf
  exact hf

theorem Updated.setup {x y : Site} {r : UpdateRequest} {result : Except VersionError Unit}
    (h : Updated x r y result) : y.manager.setup = x.manager.setup := by
  cases h with
  | refused e _ hm _ => rw [hm]
  | idle _ hm _ => rw [hm]
  | written m record version hp hm _ =>
    rw [hm, VersionManager.setup_adopt]
    exact VersionManager.setup_prepare hp
  | lost m record cause hp hm _ =>
    rw [hm]
    exact VersionManager.setup_prepare hp

namespace SyncStage

theorem step_listing (now : Time) (x : Site) :
    (step now x .listing).1.store.objects = x.store.objects ∧
      (((step now x .listing).1.manager = x.manager ∧
          ∃ wake, (step now x .listing).2 = .pausing wake) ∨
        ((step now x .listing).1.manager = x.manager.load
            ((x.store.ofKind x.kind).filter fun o => inScope x.manager.scope o.name) ∧
          (step now x .listing).2 = .finished)) := by
  rcases x.call_cases (call x.manager) with ⟨⟨e, he⟩, ho⟩ | ⟨t, ht, hcall, hstore⟩
  · simp only [step, answer, he]
    exact ⟨ho, Or.inl ⟨rfl, _, rfl⟩⟩
  · obtain ⟨hr, ho⟩ := t.commit_list x.kind x.manager.scope
    have hobj : (x.call (call x.manager)).1.store.objects = x.store.objects := by
      rw [hstore, call, ho, ht]
    have hlisted : (t.commit x.kind (call x.manager)).2 = .ok (.objects
        ((x.store.ofKind x.kind).filter fun o => inScope x.manager.scope o.name)) := by
      rw [call, hr, ofKind, ofKind, ht]
    rw [hlisted] at hcall
    simp only [step, answer, hcall]
    exact ⟨hobj, Or.inr ⟨rfl, trivial⟩⟩

end SyncStage

/-- A sync that begins at `x` ends at `y`, with faults queued at any point. -/
def SyncRun (x y : Site) : Prop :=
  ∃ turns, Site.course SyncStage.step turns (x, .listing) = (y, .finished)

/-- What a sync has done so far: nothing, or it has loaded the records in its scope. -/
def Syncing (x : Site) (z : Site × SyncStage) : Prop :=
  z.1.store.objects = x.store.objects ∧
    (z.1.manager = x.manager ∧ z.2 ≠ .finished ∨
      z.1.manager = x.manager.load
          ((x.store.ofKind x.kind).filter fun o => inScope x.manager.scope o.name) ∧
        z.2 = .finished)

theorem Syncing.step {x : Site} {z : Site × SyncStage} (now : Time) (h : Syncing x z) :
    Syncing x (SyncStage.step now z.1 z.2) := by
  obtain ⟨⟨m, s⟩, stage⟩ := z
  obtain ⟨hs, ⟨hm, hz⟩ | ⟨hm, hz⟩⟩ := h
  · dsimp only at hs hm hz
    subst hm
    cases stage with
    | listing =>
      obtain ⟨ho, hl⟩ := SyncStage.step_listing now ⟨x.manager, s⟩
      have hk : (⟨x.manager, s⟩ : Site).store.ofKind x.kind = x.store.ofKind x.kind := by
        simp only [ofKind, hs]
      refine ⟨ho.trans hs, ?_⟩
      rcases hl with ⟨hm, wake, hw⟩ | ⟨hm, hf⟩
      · refine Or.inl ⟨hm, ?_⟩
        rw [hw]
        exact fun h => by cases h
      · refine Or.inr ⟨?_, hf⟩
        rw [hm]
        exact congrArg _ (congrArg _ hk)
    | pausing wake => exact ⟨hs, Or.inl ⟨rfl, fun h => by cases h⟩⟩
    | finished => exact absurd rfl hz
  · dsimp only at hs hm hz
    subst hz
    exact ⟨hs, Or.inr ⟨hm, rfl⟩⟩

theorem SyncRun.syncing {x y : Site} (h : SyncRun x y) : y.store.objects = x.store.objects ∧
    y.manager = x.manager.load
      ((x.store.ofKind x.kind).filter fun o => inScope x.manager.scope o.name) := by
  obtain ⟨turns, ht⟩ := h
  have hs : Syncing x (Site.course SyncStage.step turns (x, .listing)) :=
    Site.course_induction (fun op f z hz => hz) (fun now z hz => hz.step now) turns
      ⟨rfl, Or.inl ⟨rfl, fun h => by cases h⟩⟩
  rw [ht] at hs
  obtain ⟨ho, ⟨-, hf⟩ | ⟨hm, -⟩⟩ := hs
  · exact absurd rfl hf
  · exact ⟨ho, hm⟩

/-- After a sync over a store the cache of a new manager holds the stored records in its scope
that belong to its target kind. -/
theorem SyncRun.cached?_iff {x y : Site} (h : SyncRun x y) (hf : x.store.Filed)
    (hnew : x.manager.records = .empty) {key : Name} {o : Object} :
    y.cached? key = some o ↔ y.stored? key = some o ∧ x.manager.owns key = true ∧
      inScope x.manager.scope key = true := by
  obtain ⟨ho, hm⟩ := h.syncing
  have hk : y.kind = x.kind := Site.kind_congr (by rw [hm, VersionManager.setup_load])
  have hst : y.stored? key = x.stored? key := by
    rw [Site.stored?, Site.stored?, hk, find?_congr ho]
  rw [hst, Site.cached?, hm, VersionManager.find?_load, hnew, Table.find?_empty, Option.or_none,
    List.filter_filter]
  constructor
  · intro hl
    have hmem := List.mem_of_getLast? hl
    simp only [List.mem_filter, Bool.and_eq_true, decide_eq_true_eq, hf.mem_ofKind] at hmem
    obtain ⟨hstored, ⟨hown, hname⟩, hscope⟩ := hmem
    subst hname
    exact ⟨hstored, hown, hscope⟩
  · rintro ⟨hstored, hown, hscope⟩
    have hname : o.name = key := hf x.kind key o hstored
    subst hname
    -- all that is listed under this name is the one object stored under it
    generalize hl : List.filter _ (x.store.ofKind x.kind) = l
    have hall : ∀ p ∈ l, p = o := by
      intro p hp
      rw [← hl] at hp
      simp only [List.mem_filter, Bool.and_eq_true, decide_eq_true_eq, hf.mem_ofKind] at hp
      obtain ⟨hp, ⟨-, hn⟩, -⟩ := hp
      rw [hn] at hp
      exact Option.some.inj (hp.symm.trans hstored)
    have hmem : o ∈ l := by
      rw [← hl]
      simp only [List.mem_filter, Bool.and_eq_true, decide_eq_true_eq, hf.mem_ofKind]
      exact ⟨hstored, ⟨hown, trivial⟩, hscope⟩
    cases hlast : l.getLast? with
    | none =>
      rw [List.getLast?_eq_none_iff.mp hlast] at hmem
      cases hmem
    | some p => rw [hall p (List.mem_of_getLast? hlast)]

end FedTrack
