import FedTrack.Proofs.Status.Visit

namespace FedTrack

namespace StatusSources

variable {s t : StatusSources} {key : Name} {resource : Resource}

theorem not_failing_of_areSynced (h : s.areSynced = true) : s.clusters.failing = false := by
  unfold areSynced ReadyClusters.get? at h
  cases hf : s.clusters.failing with
  | false => rfl
  | true => simp [hf] at h

/-- A status object shows the entries that have been written into it. -/
theorem shows_written {o : Object} {status : AggregatedStatus}
    (h : o.data.member? "clusters" = some status.clustersJson) : shows o status = true := by
  simp only [shows, h, Json.agrees_refl]

/-- What a call is about that is decided on: a federated resource that is there, ready clusters in
which the target can be looked up, and a status object that is to be written under the key. -/
structure Writes (s : StatusSources) (key : Name) (call : Call) (federated o : Object) : Prop where
  found : s.federated.find? key = some federated
  present : federated.isBeingDeleted = false
  lookedUp : s.clusters.names.any s.targets.failing.contains = false
  call : call = .create o ∨ call = .update o
  name : o.name = key
  clusters : o.data.member? "clusters" =
    some (s.rolledUp key (federated.metadata.generation.getD 0)).clustersJson

theorem name_toObject (status : AggregatedStatus) (resource : Resource) (key : Name)
    (owner : OwnerReference) : (status.toObject resource key.scope? key.name owner).name = key := by
  obtain ⟨scope, name⟩ := key
  by_cases h : scope = ""
  · simp [AggregatedStatus.toObject, Object.name, Object.anyName, Name.scope?, h]
  · simp [AggregatedStatus.toObject, Object.name, Object.anyName, Name.scope?, h]

theorem writes_of_write {federated : Object} {call : Call}
    (hfiled : ∀ existing, s.status.find? key = some existing → existing.name = key)
    (h : s.write resource key federated
      (s.rolledUp key (federated.metadata.generation.getD 0)) = .write call) :
    ∃ o : Object, (call = .create o ∨ call = .update o) ∧ o.name = key ∧
      o.data.member? "clusters" =
        some (s.rolledUp key (federated.metadata.generation.getD 0)).clustersJson := by
  unfold write at h
  split at h
  · split at h
    · cases h
    · cases h
      exact ⟨_, Or.inl rfl, name_toObject _ _ _ _, rfl⟩
  · rename_i existing he
    split at h
    · cases h
    · cases h
      refine ⟨_, Or.inr rfl, hfiled existing he, ?_⟩
      simp [AggregatedStatus.writeClustersInto]

theorem writes_of_decide {call : Call}
    (hfiled : ∀ existing, s.status.find? key = some existing → existing.name = key)
    (h : s.decide resource key = .write call) : ∃ federated o, Writes s key call federated o := by
  cases hf : s.federated.find? key with
  | none =>
    simp only [decide, hf] at h
    cases h
  | some federated =>
    cases hp : federated.isBeingDeleted with
    | true =>
      simp only [decide, hf, hp, if_true] at h
      cases h
    | false =>
      rw [decide_present hf hp] at h
      split at h
      · cases h
      · split at h
        · cases h
        · rename_i hany
          obtain ⟨o, hcall, hname, hclusters⟩ := writes_of_write hfiled h
          exact ⟨federated, o, hf, hp, Bool.eq_false_iff.mpr hany, hcall, hname, hclusters⟩

/-- Where the status object shows what has been written for the same targets, there is nothing left
to do. -/
theorem SameFor.decide_written (h : SameFor key s t) {call : Call} {federated o p : Object}
    (hw : Writes s key call federated o) (ht : t.areSynced = true)
    (hp : t.status.find? key = some p)
    (hsame : p.data.member? "clusters" = o.data.member? "clusters") :
    t.decide resource key = .finish .allOk := by
  have hfound : t.federated.find? key = some federated := h.federated.trans hw.found
  have hshows : shows p (s.rolledUp key (federated.metadata.generation.getD 0)) = true :=
    shows_written (hsame.trans hw.clusters)
  rw [decide_present hfound hw.present, not_failing_of_areSynced ht, h.any_failing, hw.lookedUp,
    h.rolledUp hw.lookedUp]
  simp only [Bool.false_eq_true, if_false, write, hp, hshows, if_true]

end StatusSources

/-- An event that is the reconcile's own, or time. -/
def VisitEvent.own : VisitEvent → Bool
  | .go _ => true
  | .pass _ => true
  | _ => false

namespace Visit

open StatusSources

variable {resource : Resource} {key : Name} {s t : StatusSources} {store : MemoryStore}
variable {v : Visit resource key}

/-- A reconcile in sources and a store that nobody else changes. -/
structure Alone (s : StatusSources) (store : MemoryStore) (v : Visit resource key) : Prop where
  sources : v.sources = s
  seen : ∀ r, v.seen = some r → r = s
  store : v.sent = none ∧ v.store = store ∨
    ∃ x, v.sent = some x ∧ x.store = store ∧ v.store = x.after

namespace Alone

theorem step (h : Alone s store v) (hv : Stands v) {e : VisitEvent} (he : e.own = true) :
    Alone s store (v.step e) := by
  obtain ⟨hsources, hseen, hstore⟩ := h
  cases e with
  | observe r => cases he
  | meddle m => cases he
  | pass span => exact ⟨hsources, hseen, hstore⟩
  | go takes =>
    unfold Visit.step
    dsimp only
    split
    · split
      · refine ⟨hsources, ?_, hstore⟩
        intro r hr
        simp only [look, hsources] at hr
        split at hr
        · exact (Option.some.inj hr).symm
        · cases hr
      · exact ⟨hsources, hseen, hstore⟩
    · rename_i call hstage
      have hunsent : v.sent = none := by
        simp only [Stands, hstage] at hv
        exact hv.1
      rcases hstore with ⟨-, hs⟩ | ⟨x, hx, -⟩
      · exact ⟨hsources, hseen, Or.inr ⟨_, rfl, hs, rfl⟩⟩
      · cases hunsent.symm.trans hx
    · exact ⟨hsources, hseen, hstore⟩

theorem run (h : Alone s store v) (hv : Stands v) {events : List VisitEvent}
    (he : ∀ e ∈ events, e.own = true) : Alone s store (v.run events) := by
  induction events generalizing v with
  | nil => exact h
  | cons e rest ih =>
    have hfirst := h.step hv (he e List.mem_cons_self)
    exact ih hfirst (hv.step e) fun e' he' => he e' (List.mem_cons_of_mem _ he')

theorem start (s : StatusSources) (store : MemoryStore) (syncTimeout : Span) (now : Time) :
    Alone s store (.start s store syncTimeout now : Visit resource key) :=
  ⟨rfl, nofun, Or.inl ⟨rfl, rfl⟩⟩

end Alone

/-- Where a reconcile has ended well and the cache of status objects has then been read from the
store again, nothing is left to be done for the key. -/
theorem Alone.settled (h : Alone s store v) (hv : Stands v) (hok : v.stage = .finished .allOk)
    (hfiled : store.Filed) (hcached : s.status.find? key = store.find? resource.toKind key)
    (hs : s.areSynced = true) (ht : t.areSynced = true) (hsame : SameFor key s t)
    (hread : t.status.find? key = v.store.find? resource.toKind key) :
    t.decide resource key = .finish .allOk := by
  have hexisting (existing : Object) (he : s.status.find? key = some existing) :
      existing.name = key := hfiled _ key existing (hcached.symm.trans he)
  simp only [Stands, hok] at hv
  rcases hv with ⟨hne, -⟩ | ⟨r, hseen, -, hended⟩
  · exact absurd rfl hne
  · cases h.seen r hseen
    generalize hsent : v.sent = sent at hended
    cases hended with
    | decided hdecided =>
      have hkept : v.store = store := by
        rcases h.store with ⟨-, hkept⟩ | ⟨x, hx, -⟩
        · exact hkept
        · cases hsent.symm.trans hx
      have hstatus : t.status.find? key = s.status.find? key := by rw [hread, hkept, hcached]
      have hclusters : t.clusters.failing = s.clusters.failing := by
        rw [not_failing_of_areSynced ht, not_failing_of_areSynced hs]
      rw [hsame.decide hclusters hstatus, hdecided]
    | @accepted x a hdecided ha =>
      have hafter : v.store = x.after := by
        rcases h.store with ⟨hnone, -⟩ | ⟨y, hy, -, hafter⟩
        · cases hnone.symm.trans hsent
        · cases hy.symm.trans hsent
          exact hafter
      obtain ⟨federated, o, hw⟩ := writes_of_decide hexisting hdecided
      obtain ⟨p, hp, hclusters⟩ := stored_of_accepted hw.call ha
      rw [hw.name, ← hafter, ← hread] at hp
      exact hsame.decide_written hw ht hp hclusters

/-- A reconcile that has nothing to do, before and after it has looked. -/
structure Idle (t : StatusSources) (store : MemoryStore) (v : Visit resource key) : Prop where
  sources : v.sources = t
  store : v.store = store
  sent : v.sent = none
  stage : (∃ poll wake, v.stage = .polling poll wake ∧ wake ≤ v.now) ∨ v.stage = .finished .allOk

namespace Idle

theorem pass (h : Idle t store v) (span : Span) : Idle t store (v.step (.pass span)) := by
  refine ⟨h.sources, h.store, h.sent, ?_⟩
  rcases h.stage with ⟨poll, wake, hv, hw⟩ | hv
  · exact Or.inl ⟨poll, wake, hv, Nat.le_trans hw (Nat.le_add_right _ _)⟩
  · exact Or.inr hv

theorem go (h : Idle t store v) (hs : t.areSynced = true)
    (hd : t.decide resource key = .finish .allOk) (takes : Span) :
    Idle t store (v.step (.go takes)) ∧ (v.step (.go takes)).stage = .finished .allOk := by
  rcases h.stage with ⟨poll, wake, hv, hw⟩ | hv
  · have hlooks : v.step (.go takes) = v.look := by simp only [step, hv, if_pos hw]
    have hstage : v.look.stage = .finished .allOk := by
      simp only [look, hv, StatusStage.look, h.sources, hs, if_true, hd, StatusStage.ofDecision]
    rw [hlooks]
    exact ⟨⟨h.sources, h.store, h.sent, Or.inr hstage⟩, hstage⟩
  · have hstays : v.step (.go takes) = v := by simp only [step, hv]
    rw [hstays]
    exact ⟨h, hv⟩

/-- It ends well as soon as it gets to look. -/
theorem run (h : Idle t store v) (hs : t.areSynced = true)
    (hd : t.decide resource key = .finish .allOk) {events : List VisitEvent}
    (he : ∀ e ∈ events, e.own = true) : Idle t store (v.run events) ∧
      ((v.stage = .finished .allOk ∨ ∃ takes, .go takes ∈ events) →
        (v.run events).stage = .finished .allOk) := by
  induction events generalizing v with
  | nil =>
    refine ⟨h, ?_⟩
    rintro (hv | ⟨takes, hm⟩)
    · exact hv
    · cases hm
  | cons e rest ih =>
    have hrest (e' : VisitEvent) (he' : e' ∈ rest) : e'.own = true :=
      he e' (List.mem_cons_of_mem _ he')
    cases e with
    | observe r => cases he _ List.mem_cons_self
    | meddle m => cases he _ List.mem_cons_self
    | pass span =>
      obtain ⟨hidle, hends⟩ := ih (h.pass span) hrest
      refine ⟨hidle, ?_⟩
      rintro (hv | ⟨takes, hm⟩)
      · exact hends (Or.inl hv)
      · rcases List.mem_cons.mp hm with hm | hm
        · cases hm
        · exact hends (Or.inr ⟨takes, hm⟩)
    | go takes =>
      obtain ⟨hnext, hv⟩ := h.go hs hd takes
      obtain ⟨hidle, hends⟩ := ih hnext hrest
      exact ⟨hidle, fun _ => hends (Or.inl hv)⟩

theorem start (t : StatusSources) (store : MemoryStore) (syncTimeout : Span) (now : Time) :
    Idle t store (.start t store syncTimeout now : Visit resource key) :=
  ⟨rfl, rfl, rfl, Or.inl ⟨_, now, rfl, Nat.le_refl now⟩⟩

end Idle

/-- A reconcile of a key that ends well leaves nothing to do for the next one. Where the cache of
status objects agreed with the store before, is read from the store again after it, and nobody else
acts, the next reconcile for the same federated object and the same targets in the same ready
clusters, named in any order, ends well when it looks, without a call. -/
theorem next_writes_nothing {s t : StatusSources} {store : MemoryStore}
    (hfiled : store.Filed) (hs : s.areSynced = true)
    (hcached : s.status.find? key = store.find? resource.toKind key)
    {syncTimeout : Span} {began : Time} {events : List VisitEvent} {v : Visit resource key}
    (hown : ∀ e ∈ events, e.own = true)
    (hv : (start s store syncTimeout began).run events = v) (hok : v.stage = .finished .allOk)
    (ht : t.areSynced = true) (hsame : SameFor key s t)
    (hread : t.status.find? key = v.store.find? resource.toKind key)
    (later : Time) {next : List VisitEvent} (hnext : ∀ e ∈ next, e.own = true)
    {w : Visit resource key} (hw : (start t v.store syncTimeout later).run next = w) :
    w.sent = none ∧ w.store = v.store ∧
      ((∃ takes, .go takes ∈ next) → w.stage = .finished .allOk) := by
  have hstands : Stands v := hv ▸ (Stands.start s store syncTimeout began).run events
  have halone : Alone s store v :=
    hv ▸ (Alone.start s store syncTimeout began).run (Stands.start ..) hown
  have hd : t.decide resource key = .finish .allOk :=
    halone.settled hstands hok hfiled hcached hs ht hsame hread
  obtain ⟨hidle, hends⟩ := (Idle.start t v.store syncTimeout later).run ht hd hnext
  rw [hw] at hidle hends
  exact ⟨hidle.sent, hidle.store, fun hgo => hends (Or.inr hgo)⟩

end Visit

namespace Visit.Sample

/-- A reconcile that creates the status object. -/
def settled : Visit resource key := (start sources .empty 30000 0).run [.go 0, .pass 5, .go 7]

/-- The sources after it, with the status object read from the store. -/
def refreshed : StatusSources where
  clusters := ⟨["east", "west", "north"], true, false⟩
  federated := sources.federated
  status := ⟨(settled.store.find? resource.toKind key).elim .empty (Table.empty.insert key), true⟩
  targets := targets

/-- The reconcile that follows. -/
def again : Visit resource key := (start refreshed settled.store 30000 100).run [.pass 3, .go 0]

end Visit.Sample

/-- The next reconcile finds the three entries that have been written, and writes nothing. -/
theorem Visit.next_writes_nothing_sample : Sample.settled.sent.isSome = true ∧
    Sample.again.sent = none ∧ Sample.again.stage = .finished .allOk := by
  have hsynced : Sample.sources.areSynced = true := by decide +kernel
  have hcached : Sample.sources.status.find? Sample.key =
      MemoryStore.empty.find? Sample.resource.toKind Sample.key := rfl
  have hrun : (start Sample.sources .empty 30000 0).run [.go 0, .pass 5, .go 7] =
      Sample.settled := rfl
  have hok : Sample.settled.stage = .finished .allOk :=
    StatusStage.eq_of_succeeded (by decide +kernel)
  have hrefreshed : Sample.refreshed.areSynced = true := by decide +kernel
  have hsame : StatusSources.SameFor Sample.key Sample.sources Sample.refreshed :=
    ⟨rfl, by decide, fun _ _ => rfl⟩
  have hread : Sample.refreshed.status.find? Sample.key =
      Sample.settled.store.find? Sample.resource.toKind Sample.key := by
    unfold ObjectCache.find? Sample.refreshed
    cases Sample.settled.store.find? Sample.resource.toKind Sample.key <;> simp
  have hagain : (start Sample.refreshed Sample.settled.store 30000 100).run [.pass 3, .go 0] =
      Sample.again := rfl
  obtain ⟨hsent, -, hends⟩ := next_writes_nothing MemoryStore.Reached.empty.filed hsynced hcached
    (by decide) hrun hok hrefreshed hsame hread 100 (by decide) hagain
  exact ⟨by decide +kernel, hsent, hends ⟨0, by simp⟩⟩

end FedTrack
