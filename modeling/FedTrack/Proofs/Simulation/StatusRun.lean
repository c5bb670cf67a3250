import FedTrack.Proofs.Poll
import FedTrack.Proofs.Simulation.VersionRun
import FedTrack.Proofs.Status.Patrol
import FedTrack.Proofs.Status.Visit
import FedTrack.Simulation.StatusRun

namespace FedTrack.Simulation.StatusWorld

/-- A reconcile of a run in some stage. -/
def visit (w : StatusWorld) (now : Time) (key : Name) (stage : StatusStage) :
    Visit w.controller.resource key :=
  ⟨now, w.sources, w.held.store, stage, none, none⟩

/-- Where no call has to wait, a reconcile of a run that is due goes on. -/
theorem stepStage_visit {w : StatusWorld} (h : w.held.store.Ungated) {now : Time} {key : Name}
    {stage : StatusStage} (hr : w.stageReady now stage none = true) :
    let v := (w.visit now key stage).step (.go 0)
    w.stepStage now key stage none = (w.setStore v.store, v.stage, none) := by
  cases stage with
  | polling poll wake =>
    have hw : wake ≤ now := of_decide_eq_true hr
    have hstep : (w.visit now key (.polling poll wake)).step (.go 0) =
        (w.visit now key (.polling poll wake)).look := by
      simp only [Visit.step, visit, hw, if_true]
    simp only [hstep]
    rfl
  | writing call =>
    have hl := MemoryStore.launch_of_ungated h w.kind call
    simp only [stepStage, hl]
    rfl
  | finished outcome => rfl

/-- A reconcile task that receives a key ends just where the wait for all sources would stop the
program before it has looked at them once. -/
theorem step_idle_ends_iff {w : StatusWorld} (h : w.cancelled = false) {key : Name}
    {queue : WorkQueue Name} (hq : w.controller.worker.queue.get? = some (key, queue)) (now : Time)
    (look : Nat → Span × Attempt Unit) :
    (step now w .idle).2.2 = none ↔
      Polling.EndsWith ⟨.simulated, StatusStage.syncPollPeriod, w.controller.timing.syncTimeout, now,
        look⟩ ⟨[], now, .error (.overflow .moment)⟩ := by
  let p : Polling Unit :=
    ⟨.simulated, StatusStage.syncPollPeriod, w.controller.timing.syncTimeout, now, look⟩
  have hstep : (step now w .idle).2.2 = none ↔ p.machine.last < p.deadline := by
    simp only [step, h, hq]
    change (if p.machine.last < p.deadline then _ else _ : StatusWorld × _ × _).2.2 = none ↔ _
    by_cases hlate : p.machine.last < p.deadline
    · rw [if_pos hlate]
      exact iff_of_true rfl hlate
    · rw [if_neg hlate]
      exact iff_of_false nofun hlate
  rw [hstep]
  constructor
  · intro hlate
    exact (Polling.endsWith_iff_of_late hlate).mpr rfl
  · intro hend
    refine Nat.lt_of_not_le fun hlast => ?_
    obtain ⟨n, -, hn⟩ := (Polling.endsWith_iff hlast).mp hend
    -- the first look would be made at once
    have hstarts := congrArg PollHistory.starts hn
    rw [Polling.starts_history, List.range_succ_eq_map] at hstarts
    cases hstarts

/-- The task of the sweeps does a step of the loop of the sweeps, and sweeps if a key is handed
over. -/
theorem step_sweeps {w : StatusWorld} (h : w.cancelled = false) {p : Patrol}
    (hc : p.controller = w.controller) (hs : p.sources = w.sources) {l : DeliveryLoop String}
    (ht : p.sweeps.task = .running l) :
    ∃ w' l', step p.now w (.sweeps l) = (w', [], some (.sweeps l')) ∧
      (p.step .go).controller = w'.controller ∧ (p.step .go).sweeps.task = .running l' := by
  rcases hl : l.step w.controller.sweeps p.now with ⟨l', d, key?⟩
  have hd : p.sweeps.deliverer = w.controller.sweeps := congrArg StatusController.sweeps hc
  have hhanded : p.sweeps.handed? = key? := by
    simp only [Delivery.handed?, ht, hd]
    exact congrArg (·.2.2) hl
  have hgo : (p.sweeps.step .go).deliverer = d ∧ (p.sweeps.step .go).task = .running l' ∧
      (p.sweeps.step .go).now = p.now := by
    have hl' : l.step w.controller.sweeps p.sweeps.now = (l', d, key?) := hl
    simp only [Delivery.step, ht, Delivery.go, hd, hl', true_and]
    rfl
  have hafter : Patrol.controller { p with sweeps := p.sweeps.step .go } =
      { w.controller with sweeps := d } := by
    rw [← hc, ← hgo.1]
    rfl
  cases key? with
  | some key =>
    refine ⟨_, l', by simp only [step, h, hl]; rfl, ?_, ?_⟩
    · simp only [Patrol.step, hhanded]
      rw [Patrol.controller_sweepNow, hafter, ← hs]
      exact congrArg _ hgo.2.2
    · simp only [Patrol.step, hhanded]
      exact hgo.2.1
  | none =>
    refine ⟨_, l', by simp only [step, h, hl]; rfl, ?_, ?_⟩
    · simp only [Patrol.step, hhanded]
      exact hafter
    · simp only [Patrol.step, hhanded]
      exact hgo.2.1

end FedTrack.Simulation.StatusWorld
