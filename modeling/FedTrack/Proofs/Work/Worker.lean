import FedTrack.Proofs.Work.Awaited
import FedTrack.Proofs.Work.Queue
import FedTrack.Work.Worker

namespace FedTrack

/-- How a key is enqueued. -/
inductive Enqueue
  | now
  | forRetry
  | forClusterSync
  | after (delay : Span)
  | withBackoff

namespace Enqueue

variable (e : Enqueue) (w : Worker) (now : Time) (key : Name)

def make : Enqueue → Worker
  | .now => w.enqueue now key
  | .forRetry => w.enqueueForRetry now key
  | .forClusterSync => w.enqueueForClusterSync now key
  | .after delay => w.enqueueAfter now key delay
  | .withBackoff => w.enqueueWithBackoff now key

/-- How long the key has to wait. -/
def delay : Enqueue → Span
  | .now => 0
  | .forRetry => w.timing.retryDelay
  | .forClusterSync => w.timing.clusterSyncDelay
  | .after delay => delay
  | .withBackoff => (w.nextBackoff key).2

theorem deliverer_make :
    (e.make w now key).deliverer = w.deliverer.deliverAfter now key (e.delay w key) := by
  cases e <;> rfl

@[simp] theorem queue_make : (e.make w now key).queue = w.queue := by
  cases e <;> rfl

@[simp] theorem maxConcurrent_make : (e.make w now key).maxConcurrent = w.maxConcurrent := by
  cases e <;> rfl

end Enqueue

/-- How a key is enqueued again after its reconcile. -/
def ReconcileOutcome.again? : ReconcileOutcome → Option Enqueue
  | .allOk => none
  | .needsRecheck => some .forRetry
  | .error => some .withBackoff
  | .notSynced => some .forClusterSync

namespace Worker

variable (w : Worker) (now : Time) (key : Name) (outcome : ReconcileOutcome)

theorem reschedule_eq : w.reschedule now key outcome =
    match outcome.again? with
    | some e => e.make w now key
    | none => { w with backoff := w.backoff.erase key } := by
  cases outcome <;> rfl

theorem deliverer_finish : (w.finish now key outcome).deliverer =
    match outcome.again? with
    | some e => w.deliverer.deliverAfter now key (e.delay w key)
    | none => w.deliverer := by
  rw [finish, reschedule_eq]
  cases outcome.again? with
  | none => rfl
  | some e =>
    have hdelay : e.delay { w with queue := w.queue.done key } key = e.delay w key := by
      cases e <;> rfl
    simp only [Enqueue.deliverer_make, hdelay]

@[simp] theorem queue_finish : (w.finish now key outcome).queue = w.queue.done key := by
  rw [finish, reschedule_eq]
  cases outcome.again? with
  | none => rfl
  | some e => exact Enqueue.queue_make _ _ _ _

@[simp] theorem maxConcurrent_finish :
    (w.finish now key outcome).maxConcurrent = w.maxConcurrent := by
  rw [finish, reschedule_eq]
  cases outcome.again? with
  | none => rfl
  | some e => exact Enqueue.maxConcurrent_make _ _ _ _

end Worker

/-- What becomes of a key that was delivered. -/
inductive Stage
  | delivered
  | started
  | ended (outcome : ReconcileOutcome)

structure Occurrence where
  key : Name
  stage : Stage
  time : Time

/-- A worker with its delivery loop and its reconcile tasks. The log tells of the deliveries, the
history of the queue and the reconciles, both with the latest first. -/
structure Workshop where
  now : Time
  worker : Worker
  task : DeliveryTask Name
  begun : Time
  log : List (Deed Name)
  crew : List (WorkQueue.Caller Name)
  history : List Occurrence

inductive WorkshopEvent
  | enqueue (key : Name) (e : Enqueue)
  | start
  /-- The delivery loop goes on. -/
  | deliver
  /-- The delivery loop looks at its timer first. -/
  | fire
  /-- A reconcile task receives a key or begins to work on it. -/
  | work (i : Nat)
  /-- A reconcile ends: the queue is told and the key rescheduled. -/
  | finish (i : Nat) (outcome : ReconcileOutcome)
  | pass (span : Span)

/-- An event at a worker that has been started, at which no time passes. -/
def WorkshopEvent.inner : WorkshopEvent → Bool
  | .start | .pass _ => false
  | _ => true

namespace Workshop

def new (w : Worker) : Workshop := ⟨0, w, .absent, 0, [], [], []⟩

def delivery (s : Workshop) : Delivery Name :=
  ⟨s.now, s.worker.deliverer, s.task, s.begun, false, s.log⟩

/-- The worker after a step of its delivery loop. -/
def follow (s : Workshop) (d : Delivery Name) : Workshop :=
  { s with
    now := d.now
    worker := { s.worker with deliverer := d.deliverer }
    task := d.task
    begun := d.begun
    log := d.log }

/-- The key that the loop hands over in its next step. -/
def handed? (s : Workshop) : Option Name :=
  match s.task with
  | .running loop => (loop.step s.worker.deliverer s.now).2.2
  | _ => none

def accept (s : Workshop) : Option Name → Workshop
  | some key => { s with
      worker := s.worker.receive key
      history := ⟨key, .delivered, s.now⟩ :: s.history }
  | none => s

def turn (s : Workshop) (i : Nat) (c : WorkQueue.Caller Name) : Workshop :=
  { s with
    worker := { s.worker with queue := (c.step s.worker.queue).1 }
    crew := s.crew.set i (c.step s.worker.queue).2 }

def asked (s : Workshop) (key : Name) (e : Enqueue) : Deed Name :=
  .asked key ⟨s.now + e.delay s.worker key, s.now⟩

def step (s : Workshop) : WorkshopEvent → Workshop
  | .enqueue key e => { s with
      worker := e.make s.worker s.now key
      log := s.asked key e :: s.log }
  | .start =>
    match s.task with
    | .absent => { s.follow (s.delivery.step .start) with
        crew := List.replicate s.worker.maxConcurrent .getting }
    | _ => s
  | .deliver => (s.follow (s.delivery.step .go)).accept s.handed?
  | .fire => s.follow (s.delivery.step .fire)
  | .work i =>
    match s.crew[i]? with
    | some .getting => s.turn i .getting
    | some (.received key) => { s.turn i (.received key) with
        history := ⟨key, .started, s.now⟩ :: s.history }
    | _ => s
  | .finish i outcome =>
    match s.crew[i]? with
    | some (.working key) => { s with
        worker := s.worker.finish s.now key outcome
        log := (outcome.again?.map (s.asked key)).toList ++ s.log
        crew := s.crew.set i .getting
        history := ⟨key, .ended outcome, s.now⟩ :: s.history }
    | _ => s
  | .pass span => s.follow (s.delivery.step (.pass span))

def run (s : Workshop) (events : List WorkshopEvent) : Workshop := events.foldl step s

/-- The keys being processed, one for each busy task. -/
def working (s : Workshop) : List Name := s.crew.filterMap WorkQueue.Caller.working?

/-! The delivery loop goes on as by itself. -/

section
variable (s : Workshop)

theorem delivery_follow {d : Delivery Name} (h : d.cancelled = false) : (s.follow d).delivery = d := by
  obtain ⟨now, deliverer, task, begun, cancelled, log⟩ := d
  cases h
  rfl

@[simp] theorem delivery_accept (key? : Option Name) : (s.accept key?).delivery = s.delivery := by
  cases key? <;> rfl

theorem delivery_enqueue (key : Name) (e : Enqueue) : (s.step (.enqueue key e)).delivery =
    s.delivery.step (.ask (.after key (e.delay s.worker key))) := by
  simp only [step, delivery, Enqueue.deliverer_make]
  rfl

theorem delivery_deliver : (s.step .deliver).delivery = s.delivery.step .go := by
  rw [step, delivery_accept, delivery_follow]
  exact s.delivery.looped_step_go.cancelled

theorem delivery_fire : (s.step .fire).delivery = s.delivery.step .fire := by
  rw [step, delivery_follow]
  exact s.delivery.looped_step_fire.cancelled

theorem delivery_pass (span : Span) :
    (s.step (.pass span)).delivery = s.delivery.step (.pass span) := by
  rw [step, delivery_follow]
  simp only [Delivery.step]
  split <;> rfl

theorem delivery_start : (s.step .start).delivery = s.delivery.step .start := by
  cases ht : s.task <;> simp [step, delivery, Delivery.step, follow, ht]

theorem delivery_work (i : Nat) : (s.step (.work i)).delivery = s.delivery := by
  simp only [step]
  split <;> rfl

theorem delivery_finish {i : Nat} {key : Name} (hi : s.crew[i]? = some (.working key))
    (outcome : ReconcileOutcome) : (s.step (.finish i outcome)).delivery =
      match outcome.again? with
      | some e => s.delivery.step (.ask (.after key (e.delay s.worker key)))
      | none => s.delivery := by
  simp only [step, hi, delivery, Worker.deliverer_finish]
  cases outcome.again? <;> rfl

end

/-- Keys that are enqueued together, all after the same delay. -/
theorem run_enqueue (s : Workshop) (keys : List Name) (delay : Span) :
    s.run (keys.map fun key => .enqueue key (.after delay)) = { s with
      worker := keys.foldl (fun w key => w.enqueueAfter s.now key delay) s.worker
      log := (keys.reverse.map fun key => .asked key ⟨s.now + delay, s.now⟩) ++ s.log } := by
  induction keys generalizing s with
  | nil => rfl
  | cons key rest ih =>
    have hrest := ih (s.step (.enqueue key (.after delay)))
    simp only [List.map_cons, List.reverse_cons, List.map_append, List.append_assoc]
    exact hrest

/-- Only time that passes moves the clock of a worker. -/
theorem now_step {s : Workshop} {e : WorkshopEvent} (he : e.inner = true) :
    (s.step e).now = s.now := by
  cases e with
  | enqueue key e => rfl
  | start => cases he
  | deliver =>
    have hnow : (s.delivery.step .go).now = s.now := (Delivery.looped_step_go _).now
    rw [step]
    cases s.handed? with
    | none => exact hnow
    | some key => exact hnow
  | fire => exact (Delivery.looped_step_fire s.delivery).now
  | work i =>
    simp only [step]
    split <;> rfl
  | finish i outcome =>
    simp only [step]
    split <;> rfl
  | pass span => cases he

/-- A worker goes on until it is cancelled. -/
theorem running_step {s : Workshop} {loop : DeliveryLoop Name} (h : s.task = .running loop)
    (e : WorkshopEvent) : ∃ loop, (s.step e).task = .running loop := by
  have hlooped {d : Delivery Name} (hl : Delivery.Looped s.delivery d) :
      ∃ loop, d.task = .running loop := by
    rcases hl.task with ht | ht
    · exact ⟨loop, ht.trans h⟩
    · exact ht
  cases e with
  | enqueue key e => exact ⟨loop, h⟩
  | start =>
    simp only [step, h]
    exact ⟨loop, rfl⟩
  | deliver =>
    rw [step]
    cases s.handed? with
    | none => exact hlooped (Delivery.looped_step_go _)
    | some key => exact hlooped (Delivery.looped_step_go _)
  | fire => exact hlooped (Delivery.looped_step_fire _)
  | work i =>
    simp only [step]
    split <;> exact ⟨loop, h⟩
  | finish i outcome =>
    simp only [step]
    split <;> exact ⟨loop, h⟩
  | pass span =>
    have hd := congrArg Delivery.task (s.delivery_pass span)
    refine ⟨loop, hd.trans ?_⟩
    simp only [Delivery.step]
    split <;> exact h

theorem running_run {s : Workshop} (h : ∃ loop, s.task = .running loop)
    (events : List WorkshopEvent) : ∃ loop, (s.run events).task = .running loop := by
  induction events generalizing s with
  | nil => exact h
  | cons e rest ih =>
    obtain ⟨loop, ht⟩ := h
    exact ih (running_step ht e)

/-- The history of a key. -/
def trace (key : Name) (history : List Occurrence) : List Occurrence :=
  history.filter (·.key = key)

theorem trace_cons_self (key : Name) (stage : Stage) (time : Time) (history : List Occurrence) :
    trace key (⟨key, stage, time⟩ :: history) = ⟨key, stage, time⟩ :: trace key history := by
  simp [trace]

theorem trace_cons_of_ne {o : Occurrence} {key : Name} (h : o.key ≠ key)
    (history : List Occurrence) : trace key (o :: history) = trace key history := by
  simp [trace, h]

/-- What holds of a worker at any time. -/
structure Fit (s : Workshop) : Prop where
  lawful : s.delivery.Lawful
  staffed : WorkQueue.Staffed s.worker.queue s.crew
  opening : s.task = .absent → s.crew = []
  lasting : s.task ≠ .ended
  size : s.crew.length ≤ s.worker.maxConcurrent
  /-- A key is being processed since its latest delivery, or it is dirty. -/
  current : ∀ key, s.worker.queue.isProcessing key = true → s.worker.queue.isDirty key = true ∨
    ∃ time rest, trace key s.history = ⟨key, .started, time⟩ :: rest

namespace Fit

variable {s : Workshop}

theorem new (name : String) (timing : WorkerTiming) (n : Nat) :
    Fit (new (Worker.new name timing n)) where
  lawful := Delivery.Lawful.new
  staffed := WorkQueue.Sound.empty
  opening _ := rfl
  lasting := nofun
  size := Nat.zero_le _
  current := nofun

theorem enqueue (h : Fit s) (key : Name) (e : Enqueue) : Fit (s.step (.enqueue key e)) where
  lawful := by
    rw [delivery_enqueue]
    exact h.lawful.ask _
  staffed := by
    rw [step, Enqueue.queue_make]
    exact h.staffed
  opening := h.opening
  lasting := h.lasting
  size := by
    rw [step, Enqueue.maxConcurrent_make]
    exact h.size
  current := by
    rw [step, Enqueue.queue_make]
    exact h.current

theorem start (h : Fit s) : Fit (s.step .start) := by
  have hl := h.lawful.start
  rw [← delivery_start] at hl
  cases ht : s.task with
  | absent =>
    have hstep : s.step .start = { s.follow (s.delivery.step .start) with
        crew := List.replicate s.worker.maxConcurrent .getting } := by
      simp only [step, ht]
    have htask : (s.delivery.step .start).task = .running .arming := by
      simp only [delivery, Delivery.step, ht]
    have hstaffed := h.staffed
    rw [h.opening ht] at hstaffed
    rw [hstep] at hl ⊢
    exact {
      lawful := hl
      staffed := by
        simpa [WorkQueue.Staffed, WorkQueue.Caller.moving?, WorkQueue.Caller.working?, follow,
          List.filterMap_replicate] using hstaffed
      opening := fun ha => by cases htask.symm.trans ha
      lasting := fun he => by cases htask.symm.trans he
      size := by simp [follow]
      current := h.current }
  | running loop =>
    have hstep : s.step .start = s := by simp only [step, ht]
    rw [hstep]
    exact h
  | ended => exact absurd ht h.lasting

theorem follow (h : Fit s) {d : Delivery Name} (hl : d.Lawful) (hc : d.cancelled = false)
    (ht : d.task = s.task ∨ ∃ loop, d.task = .running loop) : Fit (s.follow d) := by
  have hlawful : (s.follow d).delivery.Lawful := by
    rw [delivery_follow s hc]
    exact hl
  refine { h with lawful := hlawful, opening := fun ha => ?_, lasting := fun he => ?_ }
  · rcases ht with ht | ⟨loop, ht⟩
    · exact h.opening (ht.symm.trans ha)
    · cases ht.symm.trans ha
  · rcases ht with ht | ⟨loop, ht⟩
    · exact h.lasting (ht.symm.trans he)
    · cases ht.symm.trans he

theorem accept (h : Fit s) (key? : Option Name) : Fit (s.accept key?) := by
  cases key? with
  | none => exact h
  | some key =>
    exact { h with
      staffed := h.staffed.add key
      current := by
        intro k hk
        simp only [Workshop.accept, Worker.receive, WorkQueue.isProcessing_add,
          WorkQueue.isDirty_add] at hk ⊢
        by_cases he : key = k
        · simp [he]
        · rw [trace_cons_of_ne he]
          simpa [he] using h.current k hk }

theorem fire (h : Fit s) : Fit (s.step .fire) :=
  h.follow (h.lawful.looped (Delivery.looped_step_fire _))
    (Delivery.looped_step_fire _).cancelled (Delivery.looped_step_fire _).task

theorem deliver (h : Fit s) : Fit (s.step .deliver) :=
  (h.follow (h.lawful.looped (Delivery.looped_step_go _))
    (Delivery.looped_step_go _).cancelled (Delivery.looped_step_go _).task).accept _

theorem pass (h : Fit s) (span : Span) : Fit (s.step (.pass span)) := by
  have hd := delivery_pass s span
  have hl := h.lawful.pass span
  refine h.follow hl ?_ ?_
  · rw [← hd]
    rfl
  · left
    simp only [Delivery.step]
    split <;> rfl

theorem running_of_crew (h : Fit s) {i : Nat} {c : WorkQueue.Caller Name}
    (hi : s.crew[i]? = some c) : ∃ loop, s.task = .running loop := by
  cases ht : s.task with
  | absent =>
    rw [h.opening ht] at hi
    cases hi
  | running loop => exact ⟨loop, rfl⟩
  | ended => exact absurd ht h.lasting

theorem opening_of_crew (h : Fit s) {i : Nat} {c : WorkQueue.Caller Name}
    (hi : s.crew[i]? = some c) {crew : List (WorkQueue.Caller Name)} (ha : s.task = .absent) :
    crew = [] := by
  obtain ⟨loop, ht⟩ := h.running_of_crew hi
  cases ht.symm.trans ha

theorem work (h : Fit s) (i : Nat) : Fit (s.step (.work i)) := by
  simp only [step]
  split
  · rename_i hi
    exact { h with
      staffed := h.staffed.step hi
      opening := h.opening_of_crew hi
      size := by
        rw [turn, List.length_set]
        exact h.size
      current := by
        intro k hk
        simp only [turn, WorkQueue.Caller.marks_getting] at hk ⊢
        exact h.current k hk }
  · rename_i key hi
    exact { h with
      staffed := h.staffed.step hi
      opening := h.opening_of_crew hi
      size := by
        rw [turn, List.length_set]
        exact h.size
      current := by
        intro k hk
        simp only [turn, WorkQueue.Caller.step, WorkQueue.isProcessing_take,
          WorkQueue.isDirty_take] at hk ⊢
        by_cases he : key = k
        · subst he
          exact Or.inr ⟨_, _, trace_cons_self _ _ _ _⟩
        · rw [trace_cons_of_ne he]
          simpa [he] using h.current k (by simpa [he] using hk) }
  · exact h

theorem finish (h : Fit s) (i : Nat) (outcome : ReconcileOutcome) :
    Fit (s.step (.finish i outcome)) := by
  cases hi : s.crew[i]? with
  | none =>
    simp only [step, hi]
    exact h
  | some c =>
    cases c with
    | working key =>
      have hlawful : (s.step (.finish i outcome)).delivery.Lawful := by
        rw [delivery_finish s hi]
        cases outcome.again? with
        | none => exact h.lawful
        | some e => exact h.lawful.ask _
      simp only [step, hi] at hlawful ⊢
      exact { h with
        lawful := hlawful
        staffed := by
          rw [Worker.queue_finish]
          exact h.staffed.set hi fun _ hs => WorkQueue.Sound.done hs
        opening := h.opening_of_crew hi
        size := by
          rw [Worker.maxConcurrent_finish, List.length_set]
          exact h.size
        current := by
          intro k hk
          simp only [Worker.queue_finish, WorkQueue.isProcessing_done, WorkQueue.isDirty_done,
            Bool.and_eq_true, decide_eq_true_eq] at hk ⊢
          rw [trace_cons_of_ne hk.2]
          exact h.current k hk.1 }
    | _ =>
      simp only [step, hi]
      exact h

theorem step (h : Fit s) (e : WorkshopEvent) : Fit (s.step e) := by
  cases e with
  | enqueue key e => exact h.enqueue key e
  | start => exact h.start
  | deliver => exact h.deliver
  | fire => exact h.fire
  | work i => exact h.work i
  | finish i outcome => exact h.finish i outcome
  | pass span => exact h.pass span

theorem run (h : Fit s) (events : List WorkshopEvent) : Fit (s.run events) := by
  induction events generalizing s with
  | nil => exact h
  | cons e rest ih => exact ih (h.step e)

end Fit

end Workshop

end FedTrack
