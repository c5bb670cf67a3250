import FedTrack.Proofs.Version.Annals
import FedTrack.Proofs.Version.Chronicle

namespace FedTrack

/-- A new manager that lists and loads the stored records while it already updates some. -/
structure Startup where
  site : Site
  sync : Errand ⊕ Reply
  updates : List UpdateStage
  annals : Annals

inductive StartupEvent
  | client (e : Event)
  /-- The sync takes a step. -/
  | sync (now : Time)

namespace Startup

def new (x : Site) : Startup := ⟨x, .inl Demand.sync.errand, [], .begin x⟩

def step (s : Startup) : StartupEvent → Startup
  | .client (.start r) => { s with updates := s.updates ++ [.preparing r] }
  | .client (.fault op f) => { s with site := s.site.failNext op f }
  | .client (.go i now) =>
    match s.updates[i]? with
    | none => s
    | some u =>
      let (x, u') := UpdateStage.step now s.site u
      { s with site := x, updates := s.updates.set i u', annals := s.annals.note i s.site x u u' }
  | .sync now =>
    match s.sync with
    | .inr _ => s
    | .inl e =>
      let (x, e') := e.step now s.site
      { s with site := x, sync := e', annals := s.annals.noteSync s.site.manager e }

def run (s : Startup) (events : List StartupEvent) : Startup := events.foldl step s

end Startup

/-- What holds throughout a start. -/
structure Starting (s : Startup) : Prop where
  right : s.annals.Right s.site
  readable : s.annals.Readable
  shown : s.annals.Shown s.sync
  suits : ∀ i u, s.updates[i]? = some u → s.annals.Suits i u
  fresh : ∀ i, s.updates.length ≤ i → s.annals.Untouched i

namespace Starting

variable {s : Startup}

theorem new {x : Site} (hf : x.store.Filed) (hnew : x.manager.records = .empty) :
    Starting (Startup.new x) := by
  refine ⟨.begin hf hnew, ?_, ?_, ?_, ?_⟩
  · intro key i c hc
    cases hc
  · intro key c hc
    cases hc
  · intro i u hu
    cases hu
  · intro i _
    refine ⟨?_, ?_⟩
    · intro key c hc
      cases hc
    · intro n o ho
      obtain ⟨p, -, hp⟩ := Option.map_eq_some_iff.mp ho
      cases hp

theorem start (h : Starting s) (r : UpdateRequest) : Starting (s.step (.client (.start r))) := by
  refine ⟨h.right, h.readable, h.shown, ?_, ?_⟩
  · intro i u hu
    rw [Startup.step, List.getElem?_append] at hu
    split at hu
    · exact h.suits i u hu
    · rename_i hi
      rw [List.getElem?_singleton] at hu
      split at hu
      · cases hu
        exact h.fresh i (Nat.le_of_not_lt hi)
      · cases hu
  · intro i hi
    apply h.fresh i
    simp only [Startup.step, List.length_append] at hi
    omega

theorem fault (h : Starting s) (op : Operation) (f : Fault) :
    Starting (s.step (.client (.fault op f))) :=
  ⟨h.right.quiet rfl (fun _ => rfl) rfl, h.readable, h.shown, h.suits, h.fresh⟩

theorem go (h : Starting s) (i : Nat) (now : Time) :
    Starting (s.step (.client (.go i now))) := by
  unfold Startup.step
  dsimp only
  cases hi : s.updates[i]? with
  | none => exact h
  | some u =>
    have hlt : i < s.updates.length := (List.getElem?_eq_some_iff.mp hi).1
    refine ⟨h.right.note i now u, Annals.readable_note h.readable i now s.site u,
      h.shown.note _ _ _ _ _, ?_, ?_⟩
    · intro j v hv
      rw [List.getElem?_set] at hv
      split at hv
      · rename_i he
        subst he
        cases hv
        exact Annals.suits_note (h.suits i u hi) now s.site
      · rename_i hne
        exact (h.suits j v hv).within (Annals.within_note hne _ _ _ _)
    · intro j hj
      rw [List.length_set] at hj
      have hne : i ≠ j := by omega
      exact (h.fresh j hj).within (Annals.within_note hne _ _ _ _)

theorem wait (h : Starting s) {sync : Errand ⊕ Reply} (hshown : s.annals.Shown sync) :
    Starting { s with sync := sync } :=
  ⟨h.right, h.readable, hshown, h.suits, h.fresh⟩

/-- A step of the sync leaves all the updates as they are. -/
theorem of_sync {x : Site} {e : Errand} {sync : Errand ⊕ Reply} (h : Starting s)
    (hright : (s.annals.noteSync s.site.manager e).Right x)
    (hshown : (s.annals.noteSync s.site.manager e).Shown sync)
    (hreadable : (s.annals.noteSync s.site.manager e).Readable) :
    Starting ⟨x, sync, s.updates, s.annals.noteSync s.site.manager e⟩ :=
  ⟨hright, hreadable, hshown,
    fun i u hu => (h.suits i u hu).within (Annals.within_noteSync i _ _ _),
    fun i hi => (h.fresh i hi).within (Annals.within_noteSync i _ _ _)⟩

/-- The sync takes over the records that it has listed. -/
theorem load (h : Starting s) {l : List Object}
    (hs : s.sync = .inl (.loading (.ok (.objects l)))) (now : Time) :
    Starting (s.step (.sync now)) := by
  have hshown := h.shown
  rw [hs] at hshown
  obtain ⟨hunloaded, hlisted⟩ := hshown
  have hstep : s.step (.sync now) = ⟨⟨s.site.manager.load l, s.site.store⟩, .inr .synced,
      s.updates, s.annals.noteSync s.site.manager (.loading (.ok (.objects l)))⟩ := by
    simp only [Startup.step, hs, Errand.step, SyncStage.answer]
  rw [hstep]
  refine h.of_sync ⟨h.right.filed, ?_, h.right.stored⟩ ?_ ?_
  · intro key
    rw [VersionManager.face?, VersionManager.find?_load, Option.map_or]
    have hc := h.right.cached key
    rw [VersionManager.face?] at hc
    rw [hc, Annals.noteSync, Option.map_or, Option.map_map]
    rfl
  · intro key c hc
    rcases Option.or_eq_some_iff.mp hc with hl | ⟨-, hc⟩
    · obtain ⟨o, ho, he⟩ := Option.map_eq_some_iff.mp hl
      cases he
      have hmem := List.mem_of_getLast? ho
      simp only [List.mem_filter, decide_eq_true_eq] at hmem
      obtain ⟨hin, -, hname⟩ := hmem
      subst hname
      exact ⟨rfl, hlisted l rfl c hin⟩
    · exact absurd hc (hunloaded key c)
  · intro key i c hc
    exact h.readable key i c ((Annals.within_noteSync i _ _ _).1 key c hc)

theorem list (h : Starting s) (hs : s.sync = .inl (.syncing .listing)) (now : Time) :
    Starting (s.step (.sync now)) := by
  have hshown := h.shown
  rw [hs] at hshown
  have hstep : s.step (.sync now) = ⟨(s.site.call (SyncStage.call s.site.manager)).1,
      .inl (.loading (s.site.call (SyncStage.call s.site.manager)).2), s.updates,
      s.annals.noteSync s.site.manager (.syncing .listing)⟩ := by
    simp only [Startup.step, hs, Errand.step_listing]
  rw [hstep]
  have hright : s.annals.Right (s.site.call (SyncStage.call s.site.manager)).1 :=
    h.right.quiet rfl (fun _ => rfl) (Errand.objects_listing s.site)
  refine h.of_sync ⟨hright.filed, hright.cached, hright.stored⟩ ⟨hshown, ?_⟩ h.readable
  intro l hl o ho
  have hstored := h.right.stored o.name
  rw [Errand.stored?_of_listed h.right.filed hl ho, Option.map_some] at hstored
  exact Option.map_eq_some_iff.mp hstored.symm

theorem sync (h : Starting s) (now : Time) : Starting (s.step (.sync now)) := by
  have hshown := h.shown
  cases hs : s.sync with
  | inr r =>
    simp only [Startup.step, hs]
    exact h
  | inl e =>
    rw [hs] at hshown
    cases e with
    | updating u => exact absurd hshown id
    | getting resource => exact absurd hshown id
    | deleting resource => exact absurd hshown id
    | loading outcome =>
      have again (hanswer : SyncStage.answer s.site.manager outcome now =
            (s.site.manager, .pausing (now + SyncStage.retryDelay)))
          (hnote : s.annals.noteSync s.site.manager (.loading outcome) = s.annals) :
          Starting (s.step (.sync now)) := by
        simp only [Startup.step, hs, Errand.step, hanswer, hnote]
        exact h.wait hshown.1
      cases outcome with
      | error e => exact again rfl rfl
      | ok a =>
        cases a with
        | objects l => exact h.load hs now
        | found o => exact again rfl rfl
        | stored o => exact again rfl rfl
    | syncing stage =>
      cases stage with
      | listing => exact h.list hs now
      | pausing wake =>
        simp only [Startup.step, hs, Errand.step]
        exact h.wait hshown
      | finished =>
        simp only [Startup.step, hs, Errand.step]
        exact h.wait fun key c hc => absurd hc (hshown key c)

theorem step (h : Starting s) (e : StartupEvent) : Starting (s.step e) := by
  cases e with
  | sync now => exact h.sync now
  | client e =>
    cases e with
    | start r => exact h.start r
    | go i now => exact h.go i now
    | fault op f => exact h.fault op f

theorem run (h : Starting s) (events : List StartupEvent) : Starting (s.run events) := by
  induction events generalizing s with
  | nil => exact h
  | cons e rest ih => exact ih (h.step e)

/-- A record that one update made, cached and stored is durable. -/
theorem durable_of_update (h : Starting s) {key : Name} {i : Nat} {c o : Object}
    (hc : s.annals.cached key = some (.update i, c))
    (ho : s.annals.stored c.name = some (.update i, o)) : Durable s.site key := by
  obtain ⟨status, hstatus⟩ := h.readable key i c hc
  have hco : c = o := by
    by_cases hi : i < s.updates.length
    · have hsuits := h.suits i _ (List.getElem?_eq_getElem hi)
      cases hu : s.updates[i] with
      | preparing r =>
        rw [hu] at hsuits
        exact absurd hc (hsuits.1 key c)
      | writing name w =>
        rw [hu] at hsuits
        exact absurd ho (hsuits.2 c.name o)
      | adopting name version =>
        rw [hu] at hsuits
        exact hsuits key c c.name o hc ho
      | finished result =>
        rw [hu] at hsuits
        exact hsuits key c c.name o hc ho
    · exact absurd hc ((h.fresh i (Nat.le_of_not_lt hi)).1 key c)
  subst hco
  exact (h.right.settled_iff key).mpr
    (.intro hc ho (RecordType.sameStatus_of_eq hstatus hstatus))

/-- A record that the sync has loaded is durable as long as nothing has been stored under its name
since the listing. -/
theorem durable_of_sync (h : Starting s) {key : Name} {c : Object}
    (hc : s.annals.cached key = some (.sync, c)) {status : VersionStatus}
    (hstatus : RecordType.status? c = some status)
    (hsame : s.annals.stored key = s.annals.listed key) : Durable s.site key := by
  have hshown := h.shown
  cases hs : s.sync with
  | inl e =>
    rw [hs] at hshown
    cases e with
    | syncing stage => exact absurd hc (hshown key c)
    | loading outcome => exact absurd hc (hshown.1 key c)
    | updating u => exact absurd hshown id
    | getting resource => exact absurd hshown id
    | deleting resource => exact absurd hshown id
  | inr r =>
    rw [hs] at hshown
    obtain ⟨hname, e, he, hes⟩ := hshown key c hc
    have ho : s.annals.stored c.name = some e := by rw [hname, hsame, he]
    exact (h.right.settled_iff key).mpr
      (.intro hc ho (RecordType.sameStatus_of_eq hstatus (hes.trans hstatus)))

end Starting

/-- While a new manager loads what is stored, and updates already run, a record is durable exactly
if the one that was cached last and the one that was stored last say the same. They do if one
update made them both, or if the sync has loaded the record and nothing has been stored under its
name since it listed. What it loads is put over newer records too. -/
theorem durable_of_startup {x : Site} {namespaced : Bool} {federatedKind targetKind : String}
    {scope : Option String} (hnew : x.manager = .new namespaced federatedKind targetKind scope)
    (hfiled : x.store.Filed) {events : List StartupEvent} {s : Startup}
    (hs : (Startup.new x).run events = s) (key : Name) :
    (Durable s.site key ↔ s.annals.Settled key) ∧
    (∀ i c o, s.annals.cached key = some (.update i, c) →
      s.annals.stored c.name = some (.update i, o) → Durable s.site key) ∧
    ∀ c status, s.annals.cached key = some (.sync, c) → RecordType.status? c = some status →
      s.annals.stored key = s.annals.listed key → Durable s.site key := by
  have hempty : x.manager.records = .empty := by
    rw [hnew]
    rfl
  have h : Starting s := hs ▸ (Starting.new hfiled hempty).run events
  refine ⟨h.right.settled_iff key, ?_, ?_⟩
  · intro i c o hc ho
    exact h.durable_of_update hc ho
  · intro c status hc hstatus hsame
    exact h.durable_of_sync hc hstatus hsame

namespace Sample

/-- The sync lists when the update has created its record, and loads when it has ended. -/
def overwriting : List StartupEvent :=
  [.client (.start (request "1")), .client (.go 0 0), .client (.go 0 0), .sync 0,
    .client (.go 0 0), .client (.go 0 0), .sync 0]

def overwritten : Startup := (Startup.new start).run overwriting

end Sample

/-- Without any fault the sync and the update have returned, and the record as it was before its
status was stored is what is cached. -/
theorem durable_of_startup_sample : Sample.overwritten.sync.isRight = true ∧
    (∀ u ∈ Sample.overwritten.updates, u.succeeded = true) ∧
    ¬ Durable Sample.overwritten.site (Sample.start.key (Sample.request "1")) := by
  have hsync : Sample.overwritten.sync.isRight = true := by decide +kernel
  have hok : ∀ u ∈ Sample.overwritten.updates, u.succeeded = true := by decide +kernel
  obtain ⟨hiff, -⟩ := durable_of_startup (s := Sample.overwritten) (by rfl) Sample.filed_start
    (by rfl) (Sample.start.key (Sample.request "1"))
  refine ⟨hsync, hok, ?_⟩
  rw [hiff]
  decide +kernel

end FedTrack
