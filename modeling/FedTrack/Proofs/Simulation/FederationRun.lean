import FedTrack.Proofs.Member.Lookout
import FedTrack.Simulation.FederationRun

namespace FedTrack.Simulation

/-- A fleet, at rest, has the cluster states and the informer of a federation. -/
structure Shows (w : FederationWorld) (s : Fleet Unit) : Prop where
  states : s.states.states = w.states.states
  told : s.states.handlers = [()]
  handlers : w.states.handlers = [()]
  informer : s.informer = w.informer
  quiet : s.Quiet

namespace Shows

variable {w : FederationWorld} {s : Fleet Unit}

theorem new (clusters : List String) (scope : Option String) :
    Shows (.new clusters scope) (.new clusters [()]) := by
  refine ⟨rfl, rfl, rfl, rfl, ?_⟩
  intro call hcall
  cases hcall

/-- What becomes of the servers and the contents of the caches does not matter. -/
theorem of_eq (h : Shows w s) {w' : FederationWorld}
    (hs : w'.states.states = w.states.states) (hh : w'.states.handlers = w.states.handlers)
    (hi : w'.informer = w.informer) : Shows w' s :=
  ⟨h.states.trans hs.symm, h.told, hh.trans h.handlers, h.informer.trans hi.symm, h.quiet⟩

/-- Where a federation probes a cluster, the informer is told at once. -/
theorem probeOne (h : Shows w s) (now : Time) (cluster : String) :
    ∃ moves, Shows (w.probeOne now cluster).1 (s.run () moves) := by
  let e : ClusterEvent := if (w.server cluster).healthy then .healthy now else .unhealthy now
  have hquiet : ∀ call ∈ s.calls ++ [[]], call = [] := by
    intro call hcall
    rcases List.mem_append.mp hcall with hcall | hcall
    · exact h.quiet call hcall
    · exact List.mem_singleton.mp hcall
  have hprobe : (w.probeOne now cluster).1 =
      { w with
        states := (w.states.onEvent cluster e).1
        informer := (w.states.onEvent cluster e).2.foldl (fun i n => i.follow n) w.informer } := rfl
  have hstate : s.states.state? cluster = w.states.state? cluster := by
    simp only [ClusterStates.state?, h.states]
  rw [hprobe]
  refine ⟨[.event cluster e, .notify s.calls.length], ?_⟩
  cases hb : (w.states.state? cluster).bind (·.onEvent e) with
  | none =>
    have hw : w.states.onEvent cluster e = (w.states, []) := by
      simp only [ClusterStates.onEvent, hb]
    have hrun : s.run () [.event cluster e, .notify s.calls.length] =
        { s with calls := s.calls ++ [[]] } := by
      simp [Fleet.run, Fleet.step, ClusterStates.onEvent, hstate, hb]
    rw [hw, hrun]
    exact ⟨h.states, h.told, h.handlers, h.informer, hquiet⟩
  | some new =>
    let n : Notice Unit := ⟨(), cluster, new.isReady⟩
    have hw : w.states.onEvent cluster e =
        ({ w.states with states := w.states.states.insert cluster new }, [n]) := by
      simp only [ClusterStates.onEvent, hb, h.handlers]
      rfl
    have hrun : s.run () [.event cluster e, .notify s.calls.length] =
        { s with
          states := { s.states with states := s.states.states.insert cluster new }
          informer := s.informer.follow n
          calls := s.calls ++ [[]] } := by
      simp [Fleet.run, Fleet.step, ClusterStates.onEvent, hstate, hb, h.told, n]
    rw [hw, hrun]
    refine ⟨?_, h.told, h.handlers, ?_, hquiet⟩
    · show s.states.states.insert cluster new = w.states.states.insert cluster new
      rw [h.states]
    · show s.informer.follow n = w.informer.follow n
      rw [h.informer]

theorem probeAll (h : Shows w s) (now : Time) (clusters : List String) :
    ∃ moves, Shows (w.probeAll now clusters).1 (s.run () moves) := by
  unfold FederationWorld.probeAll
  generalize ([] : List FederationTask) = tasks
  induction clusters generalizing w s tasks with
  | nil => exact ⟨[], h⟩
  | cons cluster rest ih =>
    obtain ⟨moves, hm⟩ := h.probeOne now cluster
    obtain ⟨moves', hm'⟩ := ih hm (tasks ++ (w.probeOne now cluster).2)
    refine ⟨moves ++ moves', ?_⟩
    unfold Fleet.run at hm' ⊢
    rw [List.foldl_append]
    exact hm'

/-- The answer of a cluster that was asked is one move. -/
theorem start (h : Shows w s) (now : Time) {cluster : String}
    (hc : cluster ∈ w.informer.starting) :
    ∃ m, Shows (w.step now (.start cluster)).1 (s.step () m) := by
  rw [← h.informer] at hc
  have hready : s.isReady cluster = (w.states.state? cluster).any (·.isReady) := by
    simp only [Fleet.isReady, ClusterStates.state?, h.states]
  unfold FederationWorld.step
  dsimp only
  split
  · refine ⟨.found cluster, ?_⟩
    unfold Fleet.step
    dsimp only
    rw [if_pos hc, hready, h.informer]
    split
    · rename_i i hf
      rw [hf]
      exact ⟨h.states, h.told, h.handlers, rfl, h.quiet⟩
    · rename_i i cache hf
      rw [hf]
      exact ⟨h.states, h.told, h.handlers, rfl, h.quiet⟩
  · refine ⟨.notFound cluster, ?_⟩
    unfold Fleet.step
    dsimp only
    rw [if_pos hc, h.informer]
    exact ⟨h.states, h.told, h.handlers, rfl, h.quiet⟩

/-- Every step of a federation is made of moves of its fleet. -/
theorem step (h : Shows w s) (now : Time) (t : FederationTask)
    (ht : ∀ cluster, t = .start cluster → cluster ∈ w.informer.starting) :
    ∃ moves, Shows (w.step now t).1 (s.run () moves) := by
  cases t with
  | probe next period =>
    unfold FederationWorld.step
    dsimp only
    split
    · exact ⟨[], h⟩
    · obtain ⟨moves, hm⟩ := h.probeAll now w.servers.keys
      exact ⟨moves, hm.of_eq rfl rfl rfl⟩
  | start cluster =>
    obtain ⟨m, hm⟩ := h.start now (ht cluster rfl)
    exact ⟨[m], hm⟩
  | follow cluster cache stage =>
    refine ⟨[], ?_⟩
    unfold FederationWorld.step
    dsimp only
    split
    · exact h.of_eq rfl rfl rfl
    · exact h.of_eq rfl rfl rfl

end Shows

/-- A federation asks its informer whether caches are synced. -/
theorem areSynced_eq (w : FederationWorld) (clusters : List String) :
    w.areSynced clusters = w.informer.areSynced
      (fun k => ((w.caches.find? k).map (·.cache)).any (·.synced)) clusters := by
  unfold FederationWorld.areSynced Informer.areSynced
  congr 1
  funext c
  unfold FederationWorld.isSynced FederationWorld.cacheOf
  cases w.informer.caches.find? c with
  | none => rfl
  | some k => rfl

end FedTrack.Simulation
