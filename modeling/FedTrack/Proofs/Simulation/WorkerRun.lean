import FedTrack.Proofs.Work.WorkerLaw
import FedTrack.Simulation.DeliveryRun
import FedTrack.Simulation.WorkerRun

namespace FedTrack.Simulation

namespace DeliveryWorld

/-- The loop of a run with its deliverer. -/
def delivery (w : DeliveryWorld) (now begun : Time) (l : DeliveryLoop String)
    (log : List (Deed String)) : Delivery String :=
  ⟨now, w.deliverer, .running l, begun, w.cancelled, log⟩

/-- Unless it has been cancelled, a task does a step of its loop and keeps what is handed over. -/
theorem step_delivery {w : DeliveryWorld} (h : w.cancelled = false) (now begun : Time)
    (l : DeliveryLoop String) (log : List (Deed String)) :
    ∃ w' l' deeds, step now w l = (w', [], some l') ∧
      (w.delivery now begun l log).step .go = w'.delivery now begun l' (deeds ++ log) ∧
      w'.delivered = Deed.handovers deeds ++ w.delivered := by
  rcases hl : l.step w.deliverer now with ⟨l', d, key?⟩
  simp only [step, h, hl, Delivery.step, Delivery.go, delivery]
  cases key? with
  | some key => exact ⟨_, l', [.handed key now], rfl, rfl, rfl⟩
  | none =>
    refine ⟨_, l', _, rfl, rfl, ?_⟩
    unfold Delivery.deed?
    split
    · contradiction
    · rfl
    · rfl

end DeliveryWorld

namespace WorkerWorld

variable {w : WorkerWorld} {s : Workshop} {i : Nat}

theorem worker_takeScript (w : WorkerWorld) (key : Name) :
    (w.takeScript key).1.worker = w.worker := by
  unfold takeScript
  split <;> rfl

/-- The delivery task does a step of the worker's delivery loop. -/
theorem step_deliver (h : w.cancelled = false) (hw : s.worker = w.worker) {l : DeliveryLoop Name}
    (ht : s.task = .running l) : ∃ w' l', step s.now w (.deliver l) = (w', [], some (.deliver l')) ∧
      (s.step .deliver).worker = w'.worker ∧ (s.step .deliver).task = .running l' := by
  rcases hl : l.step w.worker.deliverer s.now with ⟨l', d, key?⟩
  have hs : s.step .deliver =
      (s.follow (s.delivery.go l)).accept key? := by
    simp only [Workshop.step, Workshop.handed?, Delivery.step, Workshop.delivery, ht, hw, hl]
  have hgo : (s.delivery.go l).deliverer = d ∧ (s.delivery.go l).task = .running l' := by
    simp only [Delivery.go, Workshop.delivery, hw, hl, and_self]
  rw [hs]
  cases key? with
  | some key =>
    refine ⟨_, l', by simp only [step, h, hl]; rfl, ?_, hgo.2⟩
    simp only [Workshop.accept, Workshop.follow, hgo.1, hw]
  | none =>
    refine ⟨_, l', by simp only [step, h, hl]; rfl, ?_, hgo.2⟩
    simp only [Workshop.accept, Workshop.follow, hgo.1, hw]

/-- A reconcile task that finds a key receives it and begins to work on it. -/
theorem step_idle (h : w.cancelled = false) (hw : s.worker = w.worker)
    (hi : s.crew[i]? = some .getting) {key : Name} {queue : WorkQueue Name}
    (hq : w.worker.queue.get? = some (key, queue)) :
    ∃ w' call ends, step s.now w .idle = (w', [], some (.busy call ends)) ∧ call.key = key ∧
      (s.run [.work i, .work i]).worker = w'.worker ∧
      (s.run [.work i, .work i]).crew = s.crew.set i (.working key) := by
  obtain ⟨⟨k, q⟩, hr, he⟩ := Option.map_eq_some_iff.mp hq
  cases he
  have hlt : i < s.crew.length := (List.getElem?_eq_some_iff.mp hi).1
  have hreceived : s.step (.work i) = { s with
      worker := { s.worker with queue := q }
      crew := s.crew.set i (.received key) } := by
    simp only [Workshop.step, hi, Workshop.turn, WorkQueue.Caller.step, hw, hr]
  have hworking : s.run [.work i, .work i] = { s with
      worker := { s.worker with queue := q.take key }
      crew := s.crew.set i (.working key)
      history := ⟨key, .started, s.now⟩ :: s.history } := by
    have hrun : s.run [.work i, .work i] = (s.step (.work i)).step (.work i) := rfl
    rw [hrun, hreceived]
    simp only [Workshop.step, List.getElem?_set_self hlt, Workshop.turn, WorkQueue.Caller.step,
      List.set_set]
  rw [hworking]
  refine ⟨_, _, _, by simp only [step, h, hq]; rfl, rfl, ?_, rfl⟩
  rw [worker_takeScript, hw]

/-- A reconcile that ends is told to the queue and rescheduled. -/
theorem step_busy (hw : s.worker = w.worker) {call : Reconcile}
    (hi : s.crew[i]? = some (.working call.key)) (ends : Time) :
    ∃ w', step s.now w (.busy call ends) = (w', [], some .idle) ∧
      (s.step (.finish i call.outcome)).worker = w'.worker ∧
      (s.step (.finish i call.outcome)).crew = s.crew.set i .getting := by
  refine ⟨_, rfl, ?_, ?_⟩
  · simp only [Workshop.step, hi, hw]
  · simp only [Workshop.step, hi]

end WorkerWorld

end FedTrack.Simulation
