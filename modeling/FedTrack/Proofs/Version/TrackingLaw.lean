import FedTrack.Proofs.Version.Tracking

namespace FedTrack

open MemoryStore Incident

theorem MemoryStore.Opened.kept {kind k : Kind} {name n : Name} {s t : MemoryStore}
    (h : Opened kind name s t) (hs : s.find? k n ≠ none) : t.find? k n ≠ none := by
  rcases h with h | ⟨-, o, -, hput⟩
  · rw [h]
    exact hs
  · rw [hput]
    split
    · exact Option.some_ne_none o
    · exact hs

theorem MemoryStore.Saved.kept {kind k : Kind} {record : Object} {n : Name} {s t : MemoryStore}
    (h : Saved kind record s t) (hs : s.find? k n ≠ none) : t.find? k n ≠ none := by
  obtain ⟨o, -, hput⟩ := h
  rw [hput]
  split
  · exact Option.some_ne_none o
  · exact hs

/-- A step of an update removes nothing from the store. It adds no record to the cache, or one of
its resource, which is noted. -/
structure Tended (x : Site) (u : UpdateStage) (z : Site × UpdateStage) : Prop where
  setup : z.1.manager.setup = x.manager.setup
  kept : ∀ kind name, x.store.find? kind name ≠ none → z.1.store.find? kind name ≠ none
  cached : (Incident.ofStep u z.2 = [] ∧ ∀ k, x.cached? k = none → z.1.cached? k = none) ∨
    ∃ name, Incident.ofStep u z.2 = [.recorded name] ∧
      ∀ k, x.manager.recordName name ≠ k → x.cached? k = none → z.1.cached? k = none

theorem Tended.quiet {x y : Site} {u u' : UpdateStage} (hn : Incident.ofStep u u' = [])
    (hm : y.manager = x.manager)
    (hs : ∀ kind name, x.store.find? kind name ≠ none → y.store.find? kind name ≠ none) :
    Tended x u (y, u') := by
  refine ⟨by rw [hm], hs, Or.inl ⟨hn, ?_⟩⟩
  intro k hk
  rw [Site.cached?, hm]
  exact hk

theorem UpdateStage.step_tended (now : Time) (x : Site) (u : UpdateStage) :
    Tended x u (UpdateStage.step now x u) := by
  cases u with
  | preparing r =>
    have hb := UpdateStage.step_preparing now x r
    generalize UpdateStage.step now x (.preparing r) = z at hb ⊢
    cases hb with
    | refused hp => exact .quiet rfl rfl fun _ _ h => h
    | idle hp => exact .quiet rfl rfl fun _ _ h => h
    | changed hp =>
      refine ⟨VersionManager.setup_prepare hp, fun _ _ h => h, Or.inr ⟨_, rfl, ?_⟩⟩
      intro k hk hnone
      have hkey : x.key r ≠ k := hk
      rw [Site.cached?, VersionManager.find?_cache, if_neg hkey]
      exact hnone
  | writing name w =>
    have hw := UpdateStage.step_writing now x name w
    generalize UpdateStage.step now x (.writing name w) = z at hw ⊢
    cases hw with
    | on hm hs _ => exact .quiet rfl hm fun _ _ => hs.kept
    | failed hm hs => exact .quiet rfl hm fun _ _ => hs.kept
    | saved hm hs => exact .quiet rfl hm fun _ _ => hs.kept
  | adopting name version =>
    refine ⟨VersionManager.setup_adopt _ _, fun _ _ h => h, Or.inl ⟨rfl, ?_⟩⟩
    intro k hk
    have hnone : x.manager.records.find? k = none := hk
    show (x.manager.adopt name version).records.find? k = none
    rw [VersionManager.find?_adopt, hnone]
    split <;> rfl
  | finished result => exact .quiet rfl rfl fun _ _ h => h

/-- What holds while the tracker follows the changes. -/
structure Tracked (x : Site) (heard : Bool) (s : Tracking) : Prop where
  setup : s.site.manager.setup = x.manager.setup
  /-- A record of a resource that is gone goes, or the tracker is yet to learn of it. -/
  followed : ∀ n, awaits (.removed n) (.recorded n) s.journal = true →
    s.federated.find? n = none →
    s.site.cached? (x.manager.recordName n) = none ∨
      awaits (.removed n) (.published n) s.journal = true ∨ n ∈ s.tracker.changes ∨
        s.stage = .looking n ∨ s.stage = .forgetting n
  decided : ∀ n, s.stage = .forgetting n → (looks s.journal).getLast? = some (n, false)
  looked : announcements s.journal =
    (looks s.journal).map Prod.fst ++ s.stage.unseen ++ s.tracker.changes
  heard : s.tracker.downstream.isSome = heard
  passed : ∀ names, s.tracker.downstream = some names →
    announcements s.journal = s.collected ++ names ++ s.stage.hand ++ s.tracker.changes

namespace Tracked

variable {x : Site} {heard : Bool} {s : Tracking}

theorem new (x : Site) (federated : ObjectCache) (heard : Bool) :
    Tracked x heard (Tracking.new x federated heard) := by
  refine ⟨rfl, nofun, nofun, rfl, ?_, ?_⟩
  · cases heard <;> rfl
  · intro names h
    cases heard with
    | false => cases h
    | true =>
      cases h
      rfl

theorem put (h : Tracked x heard s) (m : Name) (o : Object) :
    Tracked x heard (s.step (.act (.put m o))) := by
  simp only [Tracking.step, Incident.ofAct, List.append_nil]
  refine ⟨h.setup, ?_, h.decided, h.looked, h.heard, h.passed⟩
  intro n hn hgone
  simp only [ObjectCache.find?, CacheAct.on, Table.find?_insert] at hgone
  split at hgone
  · cases hgone
  · exact h.followed n hn hgone

theorem remove (h : Tracked x heard s) (m : Name) :
    Tracked x heard (s.step (.act (.remove m))) := by
  have helse {n : Name} (he : m ≠ n) : (s.federated.objects.erase m).find? n =
      s.federated.objects.find? n := by
    rw [Table.find?_erase, if_neg he]
  unfold Tracking.step Incident.ofAct
  dsimp only [CacheAct.on, CacheAct.published, List.foldl_nil]
  split
  · refine ⟨h.setup, ?_, ?_, ?_, h.heard, ?_⟩
    · intro n hn hgone
      by_cases he : m = n
      · subst he
        exact Or.inr (Or.inl (awaits_concat_self _ _ _))
      · have hne : Incident.removed m ≠ .removed n := fun h => he (Incident.removed.inj h)
        dsimp only at hn ⊢
        rw [awaits_concat_of_ne hne (by simp)] at hn ⊢
        exact h.followed n hn ((helse he).symm.trans hgone)
    · simpa [Incident.look?] using h.decided
    · simpa [Incident.look?, Incident.published?] using h.looked
    · simpa [Incident.published?] using h.passed
  · rename_i hm
    rw [List.append_nil]
    refine ⟨h.setup, ?_, h.decided, h.looked, h.heard, h.passed⟩
    intro n hn hgone
    by_cases he : m = n
    · subst he
      have hnone : s.federated.find? m = none := by
        simpa [Table.contains, ObjectCache.find?] using hm
      exact h.followed m hn hnone
    · exact h.followed n hn ((helse he).symm.trans hgone)

theorem publish (h : Tracked x heard s) (m : Name) :
    Tracked x heard (s.step (.act (.publish m))) := by
  simp only [Tracking.step, Incident.ofAct, CacheAct.on, CacheAct.published, List.foldl_cons,
    List.foldl_nil, Tracker.notify]
  refine ⟨h.setup, ?_, ?_, ?_, h.heard, ?_⟩
  · intro n hn hgone
    dsimp only at hn ⊢
    rw [awaits_concat_of_ne (by simp) (by simp)] at hn
    by_cases he : m = n
    · subst he
      exact Or.inr (Or.inr (Or.inl (List.mem_append_right _ List.mem_cons_self)))
    · have hne : Incident.published m ≠ .published n := fun h => he (Incident.published.inj h)
      rw [awaits_concat_of_ne (by simp) hne]
      rcases h.followed n hn hgone with hf | hf | hf | hf
      · exact Or.inl hf
      · exact Or.inr (Or.inl hf)
      · exact Or.inr (Or.inr (Or.inl (List.mem_append_left _ hf)))
      · exact Or.inr (Or.inr (Or.inr hf))
  · simpa [Incident.look?] using h.decided
  · simp [Incident.look?, Incident.published?, h.looked]
  · intro names hnames
    simp [Incident.published?, h.passed names hnames]

theorem act (h : Tracked x heard s) (a : CacheAct) : Tracked x heard (s.step (.act a)) := by
  cases a with
  | put m o => exact h.put m o
  | remove m => exact h.remove m
  | publish m => exact h.publish m
  | complete =>
    simp only [Tracking.step, Incident.ofAct, List.append_nil]
    exact ⟨h.setup, h.followed, h.decided, h.looked, h.heard, h.passed⟩

theorem go (h : Tracked x heard s) (i : Nat) (now : Time) :
    Tracked x heard (s.step (.client (.go i now))) := by
  unfold Tracking.step
  dsimp only
  cases s.updates[i]? with
  | none => exact h
  | some u =>
    have ht := UpdateStage.step_tended now s.site u
    dsimp only
    generalize UpdateStage.step now s.site u = z at ht ⊢
    have hsetup : z.1.manager.setup = x.manager.setup := ht.setup.trans h.setup
    rcases ht.cached with ⟨hnote, hcached⟩ | ⟨m, hnote, hcached⟩
    · rw [hnote, List.append_nil]
      refine ⟨hsetup, ?_, h.decided, h.looked, h.heard, h.passed⟩
      intro n hn hgone
      rcases h.followed n hn hgone with hf | hf
      · exact Or.inl (hcached _ hf)
      · exact Or.inr hf
    · rw [hnote]
      refine ⟨hsetup, ?_, ?_, ?_, h.heard, ?_⟩
      · intro n hn hgone
        by_cases he : m = n
        · subst he
          dsimp only at hn
          rw [not_awaits_concat (by simp)] at hn
          cases hn
        · have hne : Incident.recorded m ≠ .recorded n := fun h => he (Incident.recorded.inj h)
          have hkey : s.site.manager.recordName m ≠ x.manager.recordName n := by
            rw [VersionManager.recordName_congr h.setup]
            exact fun h => he (x.manager.recordName_injective h)
          dsimp only at hn ⊢
          rw [awaits_concat_of_ne (by simp) hne] at hn
          rw [awaits_concat_of_ne (by simp) (by simp)]
          rcases h.followed n hn hgone with hf | hf
          · exact Or.inl (hcached _ hkey hf)
          · exact Or.inr hf
      · simpa [Incident.look?] using h.decided
      · simpa [Incident.look?, Incident.published?] using h.looked
      · simpa [Incident.published?] using h.passed

theorem collect (h : Tracked x heard s) : Tracked x heard (s.step .collect) := by
  unfold Tracking.step
  dsimp only
  split
  · rename_i name rest hd
    refine ⟨h.setup, h.followed, h.decided, h.looked, ?_, ?_⟩
    · rw [← h.heard, hd]
      rfl
    · intro names hnames
      cases hnames
      simp [h.passed _ hd]
  · exact h

theorem take (h : Tracked x heard s) (hs : s.stage = .idle) {name : Name} {rest : List Name}
    (hc : s.tracker.changes = name :: rest) :
    Tracked x heard
      { s with tracker := { s.tracker with changes := rest }, stage := .looking name } := by
  have hlooked := h.looked
  have hpassed := h.passed
  rw [hs, hc] at hlooked hpassed
  refine ⟨h.setup, ?_, nofun, ?_, h.heard, ?_⟩
  · intro n hn hgone
    rcases h.followed n hn hgone with hf | hf | hf | hf
    · exact Or.inl hf
    · exact Or.inr (Or.inl hf)
    · rw [hc] at hf
      rcases List.mem_cons.mp hf with rfl | hf
      · exact Or.inr (Or.inr (Or.inr (Or.inl rfl)))
      · exact Or.inr (Or.inr (Or.inl hf))
    · rw [hs] at hf
      rcases hf with hf | hf
      · cases hf
      · cases hf
  · simpa [TrackerStage.unseen] using hlooked
  · intro names hnames
    simpa [TrackerStage.hand] using hpassed names hnames

theorem look (h : Tracked x heard s) {name : Name} (hs : s.stage = .looking name) :
    Tracked x heard s.track := by
  have hlooked := h.looked
  have hpassed := h.passed
  rw [hs] at hlooked hpassed
  -- what the tracker is yet to learn of stays so, but for the name at hand
  have hothers (present : Bool) (stage : TrackerStage)
      (hname : s.federated.find? name = none → stage = .forgetting name) (n : Name)
      (hn : awaits (.removed n) (.recorded n) (s.journal ++ [.looked name present]) = true)
      (hgone : s.federated.find? n = none) :
      s.site.cached? (x.manager.recordName n) = none ∨
        awaits (.removed n) (.published n) (s.journal ++ [.looked name present]) = true ∨
        n ∈ s.tracker.changes ∨ stage = .looking n ∨ stage = .forgetting n := by
    rw [awaits_concat_of_ne (by simp) (by simp)] at hn ⊢
    rcases h.followed n hn hgone with hf | hf | hf | hf
    · exact Or.inl hf
    · exact Or.inr (Or.inl hf)
    · exact Or.inr (Or.inr (Or.inl hf))
    · rw [hs] at hf
      rcases hf with hf | hf
      · cases hf
        exact Or.inr (Or.inr (Or.inr (Or.inr (hname hgone))))
      · cases hf
  unfold Tracking.track
  rw [hs]
  dsimp only
  split
  · refine ⟨h.setup, hothers false _ fun _ => rfl, ?_, ?_, h.heard, ?_⟩
    · intro n hn
      cases hn
      simp [Incident.look?]
    · simpa [Incident.look?, Incident.published?, TrackerStage.unseen] using hlooked
    · simpa [Incident.published?, TrackerStage.hand] using hpassed
  · rename_i o ho
    have hname : s.federated.find? name = none → TrackerStage.passing name = .forgetting name := by
      intro hnone
      rw [ho] at hnone
      cases hnone
    refine ⟨h.setup, hothers true _ hname, nofun, ?_, h.heard, ?_⟩
    · simpa [Incident.look?, Incident.published?, TrackerStage.unseen] using hlooked
    · simpa [Incident.published?, TrackerStage.hand] using hpassed

theorem forget (h : Tracked x heard s) {name : Name} (hs : s.stage = .forgetting name) :
    Tracked x heard
      { s with site := ⟨s.site.manager.delete name, s.site.store⟩, stage := .passing name } := by
  have hlooked := h.looked
  have hpassed := h.passed
  rw [hs] at hlooked hpassed
  refine ⟨h.setup, ?_, nofun, hlooked, h.heard, hpassed⟩
  intro n hn hgone
  have hdelete : (s.site.manager.delete name).records.find? (x.manager.recordName n) =
      if name = n then none else s.site.cached? (x.manager.recordName n) := by
    rw [VersionManager.find?_delete, VersionManager.recordName_congr h.setup]
    by_cases he : name = n
    · rw [if_pos (by rw [he]), if_pos he]
    · rw [if_neg (fun hk => he (x.manager.recordName_injective hk)), if_neg he]
      rfl
  by_cases he : name = n
  · exact Or.inl (hdelete.trans (if_pos he))
  · rcases h.followed n hn hgone with hf | hf | hf | hf
    · exact Or.inl ((hdelete.trans (if_neg he)).trans hf)
    · exact Or.inr (Or.inl hf)
    · exact Or.inr (Or.inr (Or.inl hf))
    · rw [hs] at hf
      rcases hf with hf | hf
      · cases hf
      · exact absurd (TrackerStage.forgetting.inj hf) he

theorem pass (h : Tracked x heard s) {name : Name} (hs : s.stage = .passing name) :
    Tracked x heard
      { s with
        tracker := { s.tracker with downstream := s.tracker.downstream.map (· ++ [name]) }
        stage := .idle } := by
  have hlooked := h.looked
  have hpassed := h.passed
  rw [hs] at hlooked hpassed
  refine ⟨h.setup, ?_, nofun, hlooked, ?_, ?_⟩
  · intro n hn hgone
    rcases h.followed n hn hgone with hf | hf | hf | hf
    · exact Or.inl hf
    · exact Or.inr (Or.inl hf)
    · exact Or.inr (Or.inr (Or.inl hf))
    · rw [hs] at hf
      rcases hf with hf | hf
      · cases hf
      · cases hf
  · rw [← h.heard]
    exact Option.isSome_map
  · intro names hnames
    obtain ⟨old, hold, rfl⟩ := Option.map_eq_some_iff.mp hnames
    simpa [TrackerStage.hand] using hpassed old hold

theorem track (h : Tracked x heard s) : Tracked x heard s.track := by
  cases hs : s.stage with
  | looking name => exact h.look hs
  | forgetting name =>
    unfold Tracking.track
    rw [hs]
    exact h.forget hs
  | passing name =>
    unfold Tracking.track
    rw [hs]
    exact h.pass hs
  | idle =>
    unfold Tracking.track
    rw [hs]
    dsimp only
    cases hc : s.tracker.changes with
    | nil => exact h
    | cons name rest => exact h.take hs hc

theorem step (h : Tracked x heard s) (e : TrackingEvent) : Tracked x heard (s.step e) := by
  cases e with
  | act a => exact h.act a
  | track => exact h.track
  | collect => exact h.collect
  | client e =>
    cases e with
    | start r => exact ⟨h.setup, h.followed, h.decided, h.looked, h.heard, h.passed⟩
    | fault op f => exact ⟨h.setup, h.followed, h.decided, h.looked, h.heard, h.passed⟩
    | go i now => exact h.go i now

theorem run (h : Tracked x heard s) (events : List TrackingEvent) :
    Tracked x heard (s.run events) := by
  induction events generalizing s with
  | nil => exact h
  | cons e rest ih => exact ih (h.step e)

end Tracked

namespace Tracking

/-- A step of the tracker leaves all records alone, or it forgets that of a resource that was not
there when the tracker looked last. -/
theorem site_track {x : Site} {heard : Bool} {s : Tracking} (h : Tracked x heard s) :
    s.track.site = s.site ∨ ∃ n, (looks s.journal).getLast? = some (n, false) ∧
      s.track.site = ⟨s.site.manager.delete n, s.site.store⟩ := by
  have hdecided := h.decided
  unfold track
  split
  · split
    · exact Or.inl rfl
    · exact Or.inl rfl
  · split
    · exact Or.inl rfl
    · exact Or.inl rfl
  · rename_i name hs
    exact Or.inr ⟨name, hdecided name hs, rfl⟩
  · exact Or.inl rfl

theorem store_track (s : Tracking) : s.track.site.store = s.site.store := by
  unfold track
  split
  · split <;> rfl
  · split <;> rfl
  · rfl
  · rfl

theorem kept_step (s : Tracking) (e : TrackingEvent) {kind : Kind} {name : Name}
    (h : s.site.store.find? kind name ≠ none) :
    (s.step e).site.store.find? kind name ≠ none := by
  cases e with
  | act a => exact h
  | track =>
    rw [step, store_track]
    exact h
  | collect =>
    unfold step
    dsimp only
    split <;> exact h
  | client e =>
    cases e with
    | start r => exact h
    | fault op f => exact h
    | go i now =>
      unfold step
      dsimp only
      cases s.updates[i]? with
      | none => exact h
      | some u => exact (UpdateStage.step_tended now s.site u).kept kind name h

theorem kept_run (s : Tracking) (events : List TrackingEvent) {kind : Kind} {name : Name}
    (h : s.site.store.find? kind name ≠ none) :
    (s.run events).site.store.find? kind name ≠ none := by
  induction events generalizing s with
  | nil => exact h
  | cons e rest ih => exact ih (s.step e) (s.kept_step e h)

end Tracking

/-- The tracker and the updates do their steps in any order with what happens to the federated
resources. Once all changes are dealt with, no record is cached of a resource that was taken out,
is not there, and was not updated since; nothing but a published name whose resource is not there
when the tracker looks makes it forget a record. It looks once for each published name, passes
them on in their order, and no record leaves the store. -/
theorem deletions_are_tracked {x : Site} {federated : ObjectCache} {heard : Bool}
    {events : List TrackingEvent} {s : Tracking}
    (hs : (Tracking.new x federated heard).run events = s) :
    (s.Settled → (∀ n, awaits (.removed n) (.published n) s.journal = false) →
      ∀ n, awaits (.removed n) (.recorded n) s.journal = true → s.federated.find? n = none →
        s.site.cached? (x.manager.recordName n) = none) ∧
    (s.track.site = s.site ∨ ∃ n, (looks s.journal).getLast? = some (n, false) ∧
      s.track.site = ⟨s.site.manager.delete n, s.site.store⟩) ∧
    announcements s.journal =
      (looks s.journal).map Prod.fst ++ s.stage.unseen ++ s.tracker.changes ∧
    (heard = true → ∃ names, s.tracker.downstream = some names ∧
      announcements s.journal = s.collected ++ names ++ s.stage.hand ++ s.tracker.changes) ∧
    (∀ before after, events = before ++ after → ∀ kind name,
      ((Tracking.new x federated heard).run before).site.store.find? kind name ≠ none →
        s.site.store.find? kind name ≠ none) ∧
    ∃ k, (s.run (List.replicate k .track)).Settled := by
  have h : Tracked x heard s := hs ▸ (Tracked.new x federated heard).run events
  refine ⟨?_, Tracking.site_track h, h.looked, ?_, ?_, s.settles⟩
  · rintro ⟨hidle, hchanges⟩ hpublished n hn hgone
    rcases h.followed n hn hgone with hf | hf | hf | hf
    · exact hf
    · rw [hpublished n] at hf
      cases hf
    · rw [hchanges] at hf
      cases hf
    · rw [hidle] at hf
      rcases hf with hf | hf
      · cases hf
      · cases hf
  · intro hheard
    have hsome := h.heard
    rw [hheard] at hsome
    obtain ⟨names, hnames⟩ := Option.isSome_iff_exists.mp hsome
    exact ⟨names, hnames, h.passed names hnames⟩
  · intro before after hevents kind name hbefore
    have hsplit : s = ((Tracking.new x federated heard).run before).run after := by
      rw [← hs, hevents]
      exact List.foldl_append
    rw [hsplit]
    exact Tracking.kept_run _ after hbefore

namespace Sample

def heldBy (o : Object) : WatchedCache := ⟨⟨Table.ofList [(o.name, o)], true⟩, none⟩

def acted (c : WatchedCache) (e : WatchEvent) : List TrackingEvent :=
  (CacheAct.ofEvent c e).map .act

/-- A resource with a record is taken out, comes back before the tracker looks, and is taken out
again. -/
def vanishing : List TrackingEvent :=
  .client (.start (request "1")) :: List.replicate 4 (.client (.go 0 0)) ++
    acted (heldBy resource) (.deleted resource) ++ [.track] ++
    acted (heldBy resource) (.applied resource) ++ List.replicate 5 .track ++
    acted (heldBy resource) (.deleted resource) ++ List.replicate 4 .track

def vanished : Tracking := (Tracking.new synced (heldBy resource).cache true).run vanishing

end Sample

/-- The record is cached until the tracker looks for the resource the third time, and stays
stored. -/
theorem deletions_are_tracked_sample :
    Sample.vanished.site.cached? (Sample.synced.manager.recordName Sample.resource.name) = none ∧
      looks Sample.vanished.journal = [(Sample.resource.name, true), (Sample.resource.name, true),
        (Sample.resource.name, false)] ∧
      Sample.vanished.tracker.downstream = some (List.replicate 3 Sample.resource.name) := by
  have hacts : Tracking.acts Sample.vanishing =
      CacheAct.ofEvent (Sample.heldBy Sample.resource) (.deleted Sample.resource) ++
      CacheAct.ofEvent (Sample.heldBy Sample.resource) (.applied Sample.resource) ++
      CacheAct.ofEvent (Sample.heldBy Sample.resource) (.deleted Sample.resource) := rfl
  have hheralded : Heralded (Tracking.acts Sample.vanishing) := by
    rw [hacts]
    exact ((Heralded.ofEvent _ _).append (.ofEvent _ _)).append (.ofEvent _ _)
  obtain ⟨hgone, -⟩ := deletions_are_tracked (s := Sample.vanished) rfl
  refine ⟨?_, by decide +kernel, by decide +kernel⟩
  apply hgone
  · exact ⟨by decide +kernel, by decide +kernel⟩
  · exact Tracking.published_of_heralded hheralded nofun
  · decide +kernel
  · decide +kernel

end FedTrack
