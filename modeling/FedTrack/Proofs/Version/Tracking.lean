import FedTrack.Proofs.Version.Chronicle
import FedTrack.Proofs.Watch.Mirror
import FedTrack.Version.Tracker

namespace FedTrack

/-- How far the tracker is with a change. It does one atomic step after the other, and others may
do theirs in between. -/
inductive TrackerStage
  | idle
  | looking (name : Name)
  /-- The resource was not there. -/
  | forgetting (name : Name)
  | passing (name : Name)
  deriving DecidableEq

namespace TrackerStage

/-- The name that is to be looked at. -/
def unseen : TrackerStage → List Name
  | .looking name => [name]
  | _ => []

/-- The name that is to be passed on. -/
def hand : TrackerStage → List Name
  | .idle => []
  | .looking name | .forgetting name | .passing name => [name]

end TrackerStage

/-- What has happened to a resource. -/
inductive Incident
  /-- It was taken out of the federated resources. -/
  | removed (name : Name)
  | published (name : Name)
  /-- An update has put a record in the cache. -/
  | recorded (name : Name)
  /-- The tracker has looked whether it is there. -/
  | looked (name : Name) (present : Bool)
  deriving DecidableEq

/-- The federated resources change and are published, the tracker follows the changes, and updates
run. -/
structure Tracking where
  site : Site
  federated : ObjectCache
  tracker : Tracker
  stage : TrackerStage
  /-- Names that were taken by the one that they are passed on to. -/
  collected : List Name
  updates : List UpdateStage
  journal : List Incident

inductive TrackingEvent
  | act (a : CacheAct)
  | client (e : Event)
  /-- The tracker takes a step. -/
  | track
  /-- A name that was passed on is taken. -/
  | collect

namespace Incident

def ofAct (t : Table Name Object) : CacheAct → List Incident
  | .remove name => if t.contains name then [.removed name] else []
  | .publish name => [.published name]
  | .put _ _ | .complete => []

def ofStep : UpdateStage → UpdateStage → List Incident
  | .preparing r, .writing _ _ => [.recorded r.resource.name]
  | _, _ => []

def published? : Incident → Option Name
  | .published name => some name
  | _ => none

def look? : Incident → Option (Name × Bool)
  | .looked name present => some (name, present)
  | _ => none

/-- Whether `a` has happened, and `b` has not happened since. -/
def await (a b : Incident) (waiting : Bool) (e : Incident) : Bool :=
  if e = a then true else waiting && e != b

def awaits (a b : Incident) (l : List Incident) : Bool := l.foldl (await a b) false

/-- The published names, oldest first. -/
def announcements (l : List Incident) : List Name := l.filterMap published?

def looks (l : List Incident) : List (Name × Bool) := l.filterMap look?

theorem awaits_concat (a b : Incident) (l : List Incident) (e : Incident) :
    awaits a b (l ++ [e]) = await a b (awaits a b l) e := by
  rw [awaits, List.foldl_append]
  rfl

theorem awaits_concat_self (a b : Incident) (l : List Incident) : awaits a b (l ++ [a]) = true := by
  rw [awaits_concat, await, if_pos rfl]

theorem not_awaits_concat {a b : Incident} (h : b ≠ a) (l : List Incident) :
    awaits a b (l ++ [b]) = false := by
  simp [awaits_concat, await, h]

theorem awaits_concat_of_ne {a b e : Incident} (ha : e ≠ a) (hb : e ≠ b) (l : List Incident) :
    awaits a b (l ++ [e]) = awaits a b l := by
  simp [awaits_concat, await, ha, hb]

@[simp] theorem announcements_concat (l : List Incident) (e : Incident) :
    announcements (l ++ [e]) = announcements l ++ e.published?.toList := by
  rw [announcements, List.filterMap_append]
  cases h : e.published? <;> simp [h, announcements]

@[simp] theorem looks_concat (l : List Incident) (e : Incident) :
    looks (l ++ [e]) = looks l ++ e.look?.toList := by
  rw [looks, List.filterMap_append]
  cases h : e.look? <;> simp [h, looks]

end Incident

namespace Tracking

/-- `heard` is whether there is anybody to pass the names on to. -/
def new (x : Site) (federated : ObjectCache) (heard : Bool) : Tracking :=
  ⟨x, federated, ⟨[], false, if heard then some [] else none⟩, .idle, [], [], []⟩

def track (s : Tracking) : Tracking :=
  match s.stage with
  | .idle =>
    match s.tracker.changes with
    | [] => s
    | name :: rest =>
      { s with tracker := { s.tracker with changes := rest }, stage := .looking name }
  | .looking name =>
    match s.federated.find? name with
    | none => { s with stage := .forgetting name, journal := s.journal ++ [.looked name false] }
    | some _ => { s with stage := .passing name, journal := s.journal ++ [.looked name true] }
  | .forgetting name =>
    { s with site := ⟨s.site.manager.delete name, s.site.store⟩, stage := .passing name }
  | .passing name =>
    { s with
      tracker := { s.tracker with downstream := s.tracker.downstream.map (· ++ [name]) }
      stage := .idle }

def step (s : Tracking) : TrackingEvent → Tracking
  | .act a =>
    { s with
      federated := ⟨a.on s.federated.objects, s.federated.synced || a.completes⟩
      tracker := a.published.foldl Tracker.notify s.tracker
      journal := s.journal ++ Incident.ofAct s.federated.objects a }
  | .client (.start r) => { s with updates := s.updates ++ [.preparing r] }
  | .client (.fault op f) => { s with site := s.site.failNext op f }
  | .client (.go i now) =>
    match s.updates[i]? with
    | none => s
    | some u =>
      let (x, u') := UpdateStage.step now s.site u
      { s with
        site := x
        updates := s.updates.set i u'
        journal := s.journal ++ Incident.ofStep u u' }
  | .track => s.track
  | .collect =>
    match s.tracker.downstream with
    | some (name :: rest) =>
      { s with
        tracker := { s.tracker with downstream := some rest }
        collected := s.collected ++ [name] }
    | _ => s

def run (s : Tracking) (events : List TrackingEvent) : Tracking := events.foldl step s

/-- All changes have been dealt with. -/
def Settled (s : Tracking) : Prop := s.stage = .idle ∧ s.tracker.changes = []

end Tracking

open Incident

namespace Tracking

/-- How many steps the tracker needs at most. -/
def rank (s : Tracking) : Nat :=
  4 * s.tracker.changes.length +
    match s.stage with
    | .idle => 0
    | .passing _ => 1
    | .forgetting _ => 2
    | .looking _ => 3

theorem rank_track {s : Tracking} (h : ¬ s.Settled) : s.track.rank < s.rank := by
  unfold track
  split
  · rename_i hs
    split
    · rename_i hc
      exact absurd ⟨hs, hc⟩ h
    · rename_i name rest hc
      simp only [rank, hs, hc, List.length_cons]
      omega
  · rename_i name hs
    split
    · simp only [rank, hs]
      omega
    · simp only [rank, hs]
      omega
  · rename_i name hs
    simp only [rank, hs]
    omega
  · rename_i name hs
    simp only [rank, hs]
    omega

/-- Left to itself the tracker deals with all changes. -/
theorem settles (s : Tracking) : ∃ k, (s.run (List.replicate k .track)).Settled := by
  by_cases h : s.Settled
  · exact ⟨0, h⟩
  · obtain ⟨k, hk⟩ := s.track.settles
    exact ⟨k + 1, hk⟩
termination_by s.rank
decreasing_by exact rank_track h

/-- If nothing comes in between, what the tracker does with a change is one step. -/
theorem step_of_tracks {s : Tracking} (hs : s.stage = .idle) :
    ∃ k, (s.run (List.replicate k .track)).stage = .idle ∧
      ((s.run (List.replicate k .track)).site.manager, (s.run (List.replicate k .track)).tracker) =
        s.tracker.step s.site.manager s.federated := by
  obtain ⟨x, federated, ⟨changes, closed, downstream⟩, stage, collected, updates, journal⟩ := s
  dsimp only at hs
  subst hs
  cases changes with
  | nil => exact ⟨0, rfl, rfl⟩
  | cons name rest =>
    cases hf : federated.find? name with
    | none =>
      refine ⟨4, ?_⟩
      simp [run, List.replicate, step, track, hf, Tracker.step]
    | some o =>
      refine ⟨3, ?_⟩
      simp [run, List.replicate, step, track, hf, Tracker.step]

/-- What is done to the federated resources. -/
def acts (events : List TrackingEvent) : List CacheAct :=
  events.filterMap fun
    | .act a => some a
    | _ => none

end Tracking

/-- A name that is taken out is published later. -/
def Heralded : List CacheAct → Prop
  | [] => True
  | a :: rest => (∀ name, a = .remove name → .publish name ∈ rest) ∧ Heralded rest

namespace Heralded

theorem append {l l' : List CacheAct} (h : Heralded l) (h' : Heralded l') : Heralded (l ++ l') := by
  induction l with
  | nil => exact h'
  | cons a rest ih =>
    exact ⟨fun name ha => List.mem_append_left _ (h.1 name ha), ih h.2⟩

theorem forget (names : List Name) : Heralded (names.flatMap CacheAct.forget) := by
  induction names with
  | nil => trivial
  | cons n rest ih =>
    refine ⟨?_, nofun, ih⟩
    intro name ha
    cases ha
    exact List.mem_cons_self

theorem of_kept {l : List CacheAct} (h : ∀ name, .remove name ∉ l) : Heralded l := by
  induction l with
  | nil => trivial
  | cons a rest ih =>
    refine ⟨?_, ih fun name hm => h name (List.mem_cons_of_mem a hm)⟩
    intro name ha
    subst ha
    exact absurd List.mem_cons_self (h name)

/-- A cache that follows a watch publishes what it takes out. -/
theorem ofEvent (c : WatchedCache) (e : WatchEvent) : Heralded (CacheAct.ofEvent c e) := by
  cases e with
  | listing => trivial
  | listed o => trivial
  | applied o => exact of_kept (by simp [CacheAct.ofEvent])
  | deleted o => exact forget [o.name]
  | listingDone =>
    refine (forget _).append (of_kept ?_)
    intro name hm
    simp only [List.mem_append, List.mem_flatMap, CacheAct.replace] at hm
    rcases hm with ⟨p, -, hm⟩ | hm
    · split at hm <;> simp at hm
    · simp at hm

end Heralded

namespace Tracking

/-- What only the acts decide: whether a name that was taken out is still to be published. -/
theorem awaits_track (s : Tracking) (n : Name) :
    awaits (.removed n) (.published n) s.track.journal =
      awaits (.removed n) (.published n) s.journal := by
  unfold track
  split
  · split <;> rfl
  · split
    · exact awaits_concat_of_ne (by simp) (by simp) _
    · exact awaits_concat_of_ne (by simp) (by simp) _
  · rfl
  · rfl

theorem awaits_step {s : Tracking} {e : TrackingEvent} (he : ∀ a, e ≠ .act a) (n : Name) :
    awaits (.removed n) (.published n) (s.step e).journal =
      awaits (.removed n) (.published n) s.journal := by
  cases e with
  | act a => exact absurd rfl (he a)
  | track => exact s.awaits_track n
  | collect =>
    unfold step
    dsimp only
    split <;> rfl
  | client e =>
    cases e with
    | start r => rfl
    | fault op f => rfl
    | go i now =>
      unfold step
      dsimp only
      cases s.updates[i]? with
      | none => rfl
      | some u =>
        dsimp only
        generalize UpdateStage.step now s.site u = z
        unfold ofStep
        split
        · exact awaits_concat_of_ne (by simp) (by simp) _
        · rw [List.append_nil]

theorem awaits_act {s : Tracking} {a : CacheAct} {n : Name}
    (h : awaits (.removed n) (.published n) (s.step (.act a)).journal = true) :
    a = .remove n ∨ a ≠ .publish n ∧ awaits (.removed n) (.published n) s.journal = true := by
  unfold step ofAct at h
  dsimp only at h
  split at h
  · rename_i m
    by_cases hm : m = n
    · exact Or.inl (by rw [hm])
    · have hne : removed m ≠ removed n := fun he => hm (removed.inj he)
      split at h
      · rw [awaits_concat_of_ne hne (by simp)] at h
        exact Or.inr ⟨by simp, h⟩
      · rw [List.append_nil] at h
        exact Or.inr ⟨by simp, h⟩
  · rename_i m
    by_cases hm : m = n
    · rw [hm, not_awaits_concat (by simp)] at h
      cases h
    · have hne : published m ≠ published n := fun he => hm (published.inj he)
      rw [awaits_concat_of_ne (by simp) hne] at h
      exact Or.inr ⟨fun he => hm (CacheAct.publish.inj he), h⟩
  · rw [List.append_nil] at h
    exact Or.inr ⟨by simp, h⟩
  · rw [List.append_nil] at h
    exact Or.inr ⟨by simp, h⟩

/-- A name that was taken out, and not published since, is among the acts to come. -/
theorem published_of_heralded {s : Tracking} {events : List TrackingEvent}
    (h : Heralded (acts events))
    (hs : ∀ n, awaits (.removed n) (.published n) s.journal = true → .publish n ∈ acts events)
    (n : Name) : awaits (.removed n) (.published n) (s.run events).journal = false := by
  induction events generalizing s with
  | nil =>
    rw [← Bool.not_eq_true]
    intro hn
    cases hs n hn
  | cons e rest ih =>
    have other (he : ∀ a, e ≠ .act a) (hacts : acts (e :: rest) = acts rest) :
        awaits (.removed n) (.published n) (s.run (e :: rest)).journal = false := by
      rw [hacts] at h hs
      exact ih h fun m hm => hs m ((awaits_step he m).symm.trans hm)
    cases e with
    | client e => exact other (by simp) rfl
    | track => exact other (by simp) rfl
    | collect => exact other (by simp) rfl
    | act a =>
      have hacts : acts (.act a :: rest) = a :: acts rest := rfl
      rw [hacts] at h hs
      apply ih h.2
      intro m hm
      rcases awaits_act hm with rfl | ⟨hne, hm⟩
      · exact h.1 m rfl
      · exact (List.mem_cons.mp (hs m hm)).resolve_left fun he => hne he.symm

end Tracking

end FedTrack
