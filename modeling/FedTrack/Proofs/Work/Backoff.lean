import FedTrack.Proofs.Work.WorkerLaw
import Mathlib.Algebra.Group.Nat.Defs
import Mathlib.Data.List.Induction

namespace FedTrack

/-- What becomes of the backoff of a key. -/
inductive Setback
  /-- A reconcile ended in an error. -/
  | failed
  /-- Somebody enqueued the key with backoff. -/
  | requested
  /-- All went well. -/
  | cleared
  deriving DecidableEq

def ReconcileOutcome.setback? : ReconcileOutcome → Option Setback
  | .allOk => some .cleared
  | .error => some .failed
  | .needsRecheck | .notSynced => none

namespace WorkerTiming

/-- The delay that follows `n` others since all went well. -/
def backoff (t : WorkerTiming) (n : Nat) : Span := min (t.initialBackoff * 2 ^ n) t.maxBackoff

/-- What is kept of the delays after `n` of them. -/
def kept? (t : WorkerTiming) : Nat → Option Span
  | 0 => none
  | n + 1 => some (t.backoff n)

variable {t : WorkerTiming}

theorem initial_le_backoff (h : t.initialBackoff ≤ t.maxBackoff) (n : Nat) :
    t.initialBackoff ≤ t.backoff n :=
  Nat.le_min.mpr ⟨Nat.le_mul_of_pos_right _ (Nat.two_pow_pos n), h⟩

theorem backoff_le_max (t : WorkerTiming) (n : Nat) : t.backoff n ≤ t.maxBackoff :=
  Nat.min_le_right _ _

theorem backoff_mono (t : WorkerTiming) {m n : Nat} (h : m ≤ n) : t.backoff m ≤ t.backoff n := by
  have hpow : 2 ^ m ≤ 2 ^ n := Nat.pow_le_pow_right (by decide) h
  have hmul : t.initialBackoff * 2 ^ m ≤ t.initialBackoff * 2 ^ n := Nat.mul_le_mul_left _ hpow
  exact Nat.le_min.mpr ⟨Nat.le_trans (Nat.min_le_left _ _) hmul, backoff_le_max t m⟩

/-- Capped before or after it is doubled, a delay comes to the same. -/
theorem backoff_succ (t : WorkerTiming) (n : Nat) :
    min (t.backoff n * 2) t.maxBackoff = t.backoff (n + 1) := by
  have hcap (a cap : Nat) : min (min a cap * 2) cap = min (a * 2) cap := by omega
  unfold backoff
  rw [hcap, Nat.mul_assoc, ← Nat.pow_succ]

/-- Zero stands for no delay, which is no delay in use. -/
theorem backoffAfter_kept (hpos : 0 < t.initialBackoff) (hle : t.initialBackoff ≤ t.maxBackoff)
    (n : Nat) : Worker.backoffAfter t ((t.kept? n).getD 0) = t.backoff n := by
  cases n with
  | zero => simp [kept?, Worker.backoffAfter, backoff, Nat.min_eq_left hle]
  | succ n =>
    have hused : t.backoff n ≠ 0 :=
      Nat.ne_of_gt (Nat.lt_of_lt_of_le hpos (initial_le_backoff hle n))
    rw [kept?, Option.getD_some, Worker.backoffAfter, if_neg hused]
    exact backoff_succ t n

end WorkerTiming

/-- The delay kept after a setback. -/
def Setback.keep (t : WorkerTiming) (last : Option Span) : Setback → Option Span
  | .failed | .requested => some (Worker.backoffAfter t (last.getD 0))
  | .cleared => none

namespace Worker

variable (w : Worker) (now : Time) (key k : Name)

theorem find?_backoff_withBackoff : (w.enqueueWithBackoff now k).backoff.find? key =
    if k = key then some (backoffAfter w.timing ((w.backoff.find? key).getD 0))
    else w.backoff.find? key := by
  simp only [enqueueWithBackoff, enqueueAfter, nextBackoff, Table.find?_insert]
  split
  · rename_i h
    rw [h]
  · rfl

theorem find?_backoff_finish (outcome : ReconcileOutcome) :
    (w.finish now k outcome).backoff.find? key =
      if k = key then
        match outcome.setback? with
        | some b => b.keep w.timing (w.backoff.find? key)
        | none => w.backoff.find? key
      else w.backoff.find? key := by
  cases outcome with
  | allOk => exact Table.find?_erase _ _ _
  | error => exact find?_backoff_withBackoff _ _ _ _
  | needsRecheck | notSynced => exact (ite_self _).symm

@[simp] theorem timing_finish (outcome : ReconcileOutcome) :
    (w.finish now k outcome).timing = w.timing := by
  cases outcome <;> rfl

end Worker

deriving instance DecidableEq for WorkQueue.Caller

namespace Workshop

/-- What an event does to the backoff of a key. -/
def setback? (s : Workshop) (key : Name) : WorkshopEvent → Option Setback
  | .enqueue k .withBackoff => if k = key then some .requested else none
  | .finish i outcome =>
    match s.crew[i]? with
    | some (.working k) => if k = key then outcome.setback? else none
    | _ => none
  | _ => none

/-- What becomes of the backoff of a key in a run, the latest first. -/
def setbacks (key : Name) : Workshop → List WorkshopEvent → List Setback
  | _, [] => []
  | s, e :: rest => setbacks key (s.step e) rest ++ (s.setback? key e).toList

/-- What has become of it since all went well for the key last. -/
def sinceCleared (key : Name) (s : Workshop) (events : List WorkshopEvent) : List Setback :=
  (setbacks key s events).takeWhile (· ≠ .cleared)

/-- How many reconciles of the key ended in an error since all went well for it last. -/
def failures (key : Name) (s : Workshop) (events : List WorkshopEvent) : Nat :=
  (sinceCleared key s events).count .failed

/-- How often somebody has enqueued the key with backoff since then. -/
def requests (key : Name) (s : Workshop) (events : List WorkshopEvent) : Nat :=
  (sinceCleared key s events).count .requested

section
variable (key : Name) (s : Workshop) (events later : List WorkshopEvent)

theorem setbacks_append : setbacks key s (events ++ later) =
    setbacks key (s.run events) later ++ setbacks key s events := by
  induction events generalizing s with
  | nil => exact (List.append_nil _).symm
  | cons e rest ih =>
    simp only [List.cons_append, setbacks, ih, List.append_assoc]
    rfl

theorem setbacks_concat (e : WorkshopEvent) : setbacks key s (events ++ [e]) =
    ((s.run events).setback? key e).toList ++ setbacks key s events := by
  rw [setbacks_append]
  simp only [setbacks, List.nil_append]

theorem enqueue_of_requested (h : .requested ∈ setbacks key s events) :
    .enqueue key .withBackoff ∈ events := by
  induction events generalizing s with
  | nil => cases h
  | cons e rest ih =>
    rcases List.mem_append.mp h with h | h
    · exact List.mem_cons_of_mem _ (ih _ h)
    · cases e with
      | enqueue k caller =>
        cases caller with
        | withBackoff =>
          simp only [setback?] at h
          split at h
          · rename_i hk
            exact hk ▸ List.mem_cons_self
          · cases h
        | _ => cases h
      | finish i outcome =>
        simp only [setback?] at h
        split at h
        · split at h
          · cases outcome <;> simp [ReconcileOutcome.setback?] at h
          · cases h
        · cases h
      | _ => cases h

/-- Where nobody asks for a backoff, errors alone make the delays. -/
theorem requests_eq_zero (h : .enqueue key .withBackoff ∉ events) : requests key s events = 0 := by
  refine List.count_eq_zero.mpr ?_
  intro hm
  exact h (enqueue_of_requested key s events ((List.takeWhile_sublist _).subset hm))

/-- The delays since all went well are those for errors and those that were asked for. -/
theorem length_sinceCleared : (sinceCleared key s events).length =
    failures key s events + requests key s events := by
  unfold failures requests sinceCleared
  induction setbacks key s events with
  | nil => rfl
  | cons b rest ih =>
    cases b with
    | failed | requested =>
      simp at ih ⊢
      omega
    | cleared => rfl

end

theorem timing_step (s : Workshop) (e : WorkshopEvent) :
    (s.step e).worker.timing = s.worker.timing := by
  cases e with
  | enqueue k e => cases e <;> rfl
  | deliver =>
    rw [step]
    cases s.handed? <;> rfl
  | start | work i | finish i outcome =>
    simp only [step]
    split <;> simp [turn, follow]
  | fire | pass span => rfl

theorem timing_run (s : Workshop) (events : List WorkshopEvent) :
    (s.run events).worker.timing = s.worker.timing := by
  induction events generalizing s with
  | nil => rfl
  | cons e rest ih => exact (ih (s.step e)).trans (timing_step s e)

/-- Only setbacks of the key itself change the delay that is kept for it. -/
theorem find?_backoff_step (s : Workshop) (key : Name) (e : WorkshopEvent) :
    (s.step e).worker.backoff.find? key =
      match s.setback? key e with
      | some b => b.keep s.worker.timing (s.worker.backoff.find? key)
      | none => s.worker.backoff.find? key := by
  cases e with
  | enqueue k e =>
    cases e with
    | withBackoff =>
      have h := Worker.find?_backoff_withBackoff s.worker s.now key k
      simp only [step, Enqueue.make, setback?, h]
      split <;> rfl
    | now | forRetry | forClusterSync | after delay => rfl
  | start =>
    simp only [step, setback?]
    split <;> rfl
  | deliver =>
    rw [step]
    cases s.handed? <;> rfl
  | fire => rfl
  | work i =>
    simp only [step, setback?]
    split <;> rfl
  | finish i outcome =>
    cases hi : s.crew[i]? with
    | none => simp only [step, setback?, hi]
    | some c =>
      cases c with
      | working k =>
        simp only [step, setback?, hi, Worker.find?_backoff_finish]
        by_cases hk : k = key
        · simp only [if_pos hk]
        · simp only [if_neg hk]
      | _ => simp only [step, setback?, hi]
  | pass span => rfl

theorem sinceCleared_concat (key : Name) (s : Workshop) (events : List WorkshopEvent)
    (e : WorkshopEvent) : sinceCleared key s (events ++ [e]) =
      match (s.run events).setback? key e with
      | none => sinceCleared key s events
      | some .cleared => []
      | some b => b :: sinceCleared key s events := by
  unfold sinceCleared
  rw [setbacks_concat]
  cases (s.run events).setback? key e with
  | none => rfl
  | some b => cases b <;> simp

section
variable {name : String} {timing : WorkerTiming} {n : Nat}

/-- Of all that happened the delay that is kept tells only how many there were since all went
well. -/
theorem find?_backoff_run (hpos : 0 < timing.initialBackoff)
    (hle : timing.initialBackoff ≤ timing.maxBackoff) (key : Name) (events : List WorkshopEvent) :
    let start := new (Worker.new name timing n)
    (start.run events).worker.backoff.find? key =
      timing.kept? (sinceCleared key start events).length := by
  intro start
  induction events using List.reverseRecOn with
  | nil => rfl
  | append_singleton events e ih =>
    have hrun : start.run (events ++ [e]) = (start.run events).step e := by
      simp [run]
    have htiming : (start.run events).worker.timing = timing := timing_run start events
    have hkeep : Worker.backoffAfter timing ((timing.kept?
        (sinceCleared key start events).length).getD 0) = _ :=
      WorkerTiming.backoffAfter_kept hpos hle _
    rw [hrun, find?_backoff_step, sinceCleared_concat, ih, htiming]
    cases (start.run events).setback? key e with
    | none => rfl
    | some b =>
      cases b with
      | failed | requested => exact congrArg some hkeep
      | cleared => rfl

theorem delay_run (hpos : 0 < timing.initialBackoff)
    (hle : timing.initialBackoff ≤ timing.maxBackoff) (key : Name) (events : List WorkshopEvent) :
    let start := new (Worker.new name timing n)
    Enqueue.withBackoff.delay (start.run events).worker key =
      timing.backoff (sinceCleared key start events).length := by
  intro start
  have htiming : (start.run events).worker.timing = timing := timing_run start events
  have hkept : (start.run events).worker.backoff.find? key =
      timing.kept? (sinceCleared key start events).length := find?_backoff_run hpos hle key events
  rw [← WorkerTiming.backoffAfter_kept hpos hle, ← hkept]
  simp only [Enqueue.delay, Worker.nextBackoff, htiming, start]

end

/-- Without a success the setbacks only grow in number. -/
theorem sinceCleared_append {key : Name} {s : Workshop} {events later : List WorkshopEvent}
    (h : .cleared ∉ setbacks key (s.run events) later) :
    sinceCleared key s (events ++ later) =
      setbacks key (s.run events) later ++ sinceCleared key s events := by
  have hall : ∀ b ∈ setbacks key (s.run events) later, decide (b ≠ .cleared) = true := by
    intro b hb
    rw [decide_eq_true_eq]
    rintro rfl
    exact h hb
  unfold sinceCleared
  rw [setbacks_append, List.takeWhile_append_of_pos hall]

/-- A reconcile that ends in an error counts, and is the one that counts. -/
theorem sinceCleared_failed {key : Name} {s : Workshop} {events : List WorkshopEvent} {i : Nat}
    (hi : (s.run events).crew[i]? = some (.working key)) :
    sinceCleared key s (events ++ [.finish i .error]) = .failed :: sinceCleared key s events := by
  rw [sinceCleared_concat]
  simp only [setback?, hi, if_true, ReconcileOutcome.setback?]

/-- After an error a key waits for the initial backoff, doubled for each error before it since all
went well, but no longer than the greatest one. It counts as an error if somebody enqueues the key
with backoff. All other outcomes of the key, and all that happens to other keys, count for nothing:
so the delays do not decrease until all goes well. -/
theorem backoff_doubles (name : String) (timing : WorkerTiming) (n : Nat)
    (hpos : 0 < timing.initialBackoff) (hle : timing.initialBackoff ≤ timing.maxBackoff)
    (events : List WorkshopEvent) (i : Nat) (key : Name) :
    let start := new (Worker.new name timing n)
    let s := start.run events
    let failed := events ++ [.finish i .error]
    let t := start.run failed
    let delay (run : List WorkshopEvent) := min (timing.initialBackoff *
      2 ^ (failures key start run + requests key start run - 1)) timing.maxBackoff
    s.crew[i]? = some (.working key) →
      failures key start failed = failures key start events + 1 ∧
      requests key start failed = requests key start events ∧
      (.enqueue key .withBackoff ∉ events → requests key start events = 0) ∧
      t.worker.deliverer = s.worker.deliverer.deliverAfter s.now key (delay failed) ∧
      t.log = .asked key ⟨s.now + delay failed, s.now⟩ :: s.log ∧
      timing.initialBackoff ≤ delay failed ∧ delay failed ≤ timing.maxBackoff ∧
      ∀ later j, (t.run later).crew[j]? = some (.working key) → .cleared ∉ setbacks key t later →
        delay failed ≤ delay (failed ++ later ++ [.finish j .error]) := by
  intro start s failed t delay hi
  have hclosed {l : List WorkshopEvent} {i : Nat}
      (hi : (start.run l).crew[i]? = some (.working key)) :
      delay (l ++ [.finish i .error]) = timing.backoff (sinceCleared key start l).length := by
    simp only [delay, ← length_sinceCleared, sinceCleared_failed hi]
    rfl
  have hdelay : delay failed = timing.backoff (sinceCleared key start events).length := hclosed hi
  have hused : Enqueue.withBackoff.delay s.worker key = delay failed := by
    rw [hdelay]
    exact delay_run hpos hle key events
  have ht : t = s.step (.finish i .error) := run_append start events [.finish i .error]
  refine ⟨?_, ?_, requests_eq_zero key start events, ?_, ?_, ?_, ?_, ?_⟩
  · simp only [failures, failed, sinceCleared_failed hi, List.count_cons_self]
  · simp only [requests, failed, sinceCleared_failed hi]
    exact List.count_cons_of_ne (by decide)
  · have hd := s.worker.deliverer_finish s.now key .error
    rw [ht, ← hused]
    simp only [step, hi]
    exact hd
  · rw [ht, ← hused]
    simp only [step, hi]
    rfl
  · rw [hdelay]
    exact WorkerTiming.initial_le_backoff hle _
  · rw [hdelay]
    exact timing.backoff_le_max _
  · intro later j hj hclear
    have hlater : sinceCleared key start (failed ++ later) =
        setbacks key t later ++ sinceCleared key start failed := sinceCleared_append hclear
    have hj' : (start.run (failed ++ later)).crew[j]? = some (.working key) := by
      rw [run_append]
      exact hj
    rw [hdelay, hclosed hj', hlater, sinceCleared_failed hi]
    apply timing.backoff_mono
    simp only [List.length_append, List.length_cons]
    omega

/-- The second error waits for ten seconds, whatever became of the reconcile between the two. -/
theorem backoff_doubles_sample :
    let key : Name := ⟨"apps", "web"⟩
    let again (span : Span) : List WorkshopEvent :=
      [.deliver, .deliver, .deliver, .deliver, .pass span, .fire, .deliver, .work 0, .work 0]
    let events : List WorkshopEvent := [.enqueue key .now, .start] ++ again 0 ++
      [.finish 0 .error] ++ again 5000 ++ [.finish 0 .needsRecheck] ++ again 10000
    let start := new (Worker.new "sync" .standard 1)
    let failed := events ++ [.finish 0 .error]
    0 < WorkerTiming.standard.initialBackoff ∧
      WorkerTiming.standard.initialBackoff ≤ WorkerTiming.standard.maxBackoff ∧
      (start.run events).crew[0]? = some (.working key) ∧
      failures key start failed = 2 ∧ requests key start failed = 0 ∧
      (start.run failed).log =
        .asked key ⟨(start.run events).now + 10000, (start.run events).now⟩ ::
          (start.run events).log := by
  intro key again events start failed
  have hi : (start.run events).crew[0]? = some (.working key) := by decide +kernel
  have hm : failures key start failed = 2 := by decide +kernel
  have hr : requests key start failed = 0 := by decide +kernel
  have hlog : (start.run failed).log = .asked key ⟨(start.run events).now +
      min (5000 * 2 ^ (failures key start failed + requests key start failed - 1)) 60000,
        (start.run events).now⟩ :: (start.run events).log :=
    (backoff_doubles "sync" .standard 1 (by decide) (by decide) events 0 key hi).2.2.2.2.1
  have hspan : min (5000 * 2 ^ (2 + 0 - 1)) 60000 = 10000 := by decide
  rw [hm, hr, hspan] at hlog
  exact ⟨by decide, by decide, hi, hm, hr, hlog⟩

end Workshop

end FedTrack
