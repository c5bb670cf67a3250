import FedTrack.Proofs.Version.Course
import FedTrack.Simulation.VersionRun

namespace FedTrack

namespace MemoryStore

/-- No call has to wait. -/
def Ungated (s : MemoryStore) : Prop := ∀ call gate, s.gate? call = some gate → s.isOpen gate = true

theorem enter_gates (s : MemoryStore) (op : Operation) :
    (s.enter op).1.holds = s.holds ∧ (s.enter op).1.openGates = s.openGates := by
  unfold enter
  dsimp only
  split <;> exact ⟨rfl, rfl⟩

theorem gate?_congr {s t : MemoryStore} (h : t.holds = s.holds) (call : Call) :
    t.gate? call = s.gate? call := by
  cases call <;> simp only [gate?, h]

/-- Where no call has to wait, a call that is launched has ended. -/
theorem launch_of_ungated {s : MemoryStore} (h : s.Ungated) (kind : Kind) (call : Call) :
    s.launch kind call = ((s.perform kind call).1, .inl (s.perform kind call).2) := by
  obtain ⟨hh, ho⟩ := s.enter_gates call.operation
  cases he : s.enter call.operation with
  | mk t fault =>
    rw [he] at hh ho
    cases fault with
    | some e => simp only [launch, perform, he]
    | none =>
      simp only [launch, perform, he, gate?_congr hh]
      split
      · rename_i gate hg
        have hopen : t.isOpen gate = true := by
          rw [isOpen, ho]
          exact h call gate hg
        rw [if_pos hopen]
      · rfl

end MemoryStore

namespace Simulation

namespace VersionWorld

/-- A manager of a run with the store of the run. -/
def site (w : VersionWorld) (i : Nat) : Site := ⟨w.manager i, w.held.store⟩

@[simp] theorem manager_setManager (w : VersionWorld) (i : Nat) (m : VersionManager) :
    (w.setManager i m).manager i = m := by
  simp [setManager, manager]

theorem find?_setResult (w : VersionWorld) (ticket : String) (r : VersionResult) :
    (w.setResult ticket r).results.find? ticket = some r := by
  simp [setResult]

end VersionWorld

namespace VersionTask

/-- An update goes on in a stage, or it has ended and its result is known. -/
def GoesOn (ticket : String) (i : Nat) (x : Site) (stage : UpdateStage)
    (out : VersionWorld × List VersionTask × Option VersionTask) : Prop :=
  out.1.site i = x ∧ out.2.1 = [] ∧
    ((∃ result, stage = .finished result ∧ out.2.2 = none ∧
        out.1.results.find? ticket = some (.updated result)) ∨
      out.2.2 = some (.update ticket i stage none))

theorem goesOn_goOn (w : VersionWorld) (ticket : String) (i : Nat) (stage : UpdateStage) :
    GoesOn ticket i (w.site i) stage (goOn w ticket i stage) := by
  unfold goOn
  split
  · rename_i result
    exact ⟨rfl, rfl, Or.inl ⟨result, rfl, rfl, VersionWorld.find?_setResult _ ticket _⟩⟩
  · exact ⟨rfl, rfl, Or.inr rfl⟩

/-- Where no call has to wait, the update of a run does one step at a time. -/
theorem step_update {w : VersionWorld} (h : w.held.store.Ungated) (now : Time) (ticket : String)
    (i : Nat) (stage : UpdateStage) :
    GoesOn ticket i (UpdateStage.step now (w.site i) stage).1
      (UpdateStage.step now (w.site i) stage).2 (step now w (.update ticket i stage none)) := by
  cases stage with
  | preparing r =>
    have hsite : (w.setManager i (UpdateStage.prepare (w.manager i) r now).1).site i =
        (UpdateStage.step now (w.site i) (.preparing r)).1 := by
      simp only [VersionWorld.site, VersionWorld.manager_setManager]
      rfl
    rw [← hsite]
    exact goesOn_goOn _ ticket i _
  | adopting name version =>
    have hsite : (w.setManager i ((w.manager i).adopt name version)).site i =
        (UpdateStage.step now (w.site i) (.adopting name version)).1 := by
      simp only [VersionWorld.site, VersionWorld.manager_setManager]
      rfl
    rw [← hsite]
    exact goesOn_goOn _ ticket i _
  | finished result => exact goesOn_goOn w ticket i (.finished result)
  | writing name write =>
    cases hc : write.call? name with
    | none =>
      simp only [step, UpdateStage.step, UpdateStage.call?, hc]
      exact goesOn_goOn w ticket i (.writing name write.wake)
    | some call =>
      have hl := MemoryStore.launch_of_ungated h (w.manager i).recordType.resource.toKind call
      simp only [step, UpdateStage.step, UpdateStage.call?, hc, hl]
      exact goesOn_goOn _ ticket i _

/-- The same of a sync that has not been cancelled. -/
theorem step_sync {w : VersionWorld} {ticket : String}
    (h : w.cancelledSyncs.contains ticket = false) (now : Time) (i : Nat) (stage : SyncStage) :
    (step now w (.sync ticket i stage)).1.site i = (SyncStage.step now (w.site i) stage).1 ∧
      ((SyncStage.step now (w.site i) stage).2 = .finished ∧
          (step now w (.sync ticket i stage)).2.2 = none ∨
        (step now w (.sync ticket i stage)).2.2 =
          some (.sync ticket i (SyncStage.step now (w.site i) stage).2)) := by
  have hsite (s : MemoryStore) (m : VersionManager) :
      ((w.setStore s).setManager i m).site i = ⟨m, s⟩ := by
    simp only [VersionWorld.site, VersionWorld.manager_setManager]
    rfl
  simp only [step, h, Bool.false_eq_true, if_false]
  cases stage with
  | listing =>
    simp only [SyncStage.step, Site.call, VersionWorld.site, Site.kind]
    cases hs : SyncStage.answer (w.manager i) (w.held.store.perform
        (w.manager i).recordType.resource.toKind (SyncStage.call (w.manager i))).2 now with
    | mk m stage =>
      cases stage with
      | finished => exact ⟨hsite _ m, Or.inl ⟨rfl, rfl⟩⟩
      | listing => exact ⟨hsite _ m, Or.inr rfl⟩
      | pausing wake => exact ⟨hsite _ m, Or.inr rfl⟩
  | pausing wake => exact ⟨rfl, Or.inr rfl⟩
  | finished => exact ⟨rfl, Or.inl ⟨rfl, rfl⟩⟩

/-- A sync that has been cancelled returns without another call. -/
theorem step_sync_cancelled {w : VersionWorld} {ticket : String}
    (h : w.cancelledSyncs.contains ticket = true) (now : Time) (i : Nat) (stage : SyncStage) :
    (step now w (.sync ticket i stage)).1.site i = w.site i ∧
      (step now w (.sync ticket i stage)).2.2 = none := by
  unfold step
  dsimp only
  rw [if_pos h]
  exact ⟨rfl, rfl⟩

end VersionTask

end Simulation

end FedTrack
