import FedTrack.Proofs.Work.DeliveryLaw
import FedTrack.Proofs.Work.Worker

namespace FedTrack.Workshop

variable {s t : Workshop} {key : Name} {c : Asked}

theorem handed?_eq (s : Workshop) : s.handed? = s.delivery.inHand.head? := by
  rw [← s.delivery.handed?_eq, handed?, Delivery.handed?, delivery]
  cases s.task <;> rfl

/-- A key that waits still waits after a step of the loop, or is now in the queue. -/
theorem waits_deliver (h : s.delivery.Waits key c) : (s.step .deliver).delivery.Waits key c ∨
    (s.step .deliver).worker.queue.isDirty key = true ∧
      (s.step .deliver).history = ⟨key, .delivered, s.now⟩ :: s.history := by
  rcases h.looped (Delivery.looped_step_go _) with hw | hk
  · rw [delivery_deliver]
    exact Or.inl hw
  · right
    have hnow : (s.delivery.step .go).now = s.now := (Delivery.looped_step_go _).now
    have hs : s.step .deliver = (s.follow (s.delivery.step .go)).accept (some key) := by
      rw [step, handed?_eq, hk]
    rw [hs]
    refine ⟨by simp [accept, Worker.receive], ?_⟩
    simp only [accept, follow, hnow]

/-! No key is forgotten. -/

/-- All went well when a key was reconciled last, and it was not delivered since that began. -/
def Served (key : Name) (history : List Occurrence) : Prop :=
  ∃ ended started rest, trace key history =
    ⟨key, .ended .allOk, ended⟩ :: ⟨key, .started, started⟩ :: rest

theorem Served.cons_of_ne {o : Occurrence} {history : List Occurrence} (h : Served key history)
    (hne : o.key ≠ key) : Served key (o :: history) := by
  unfold Served
  rw [trace_cons_of_ne hne]
  exact h

/-- Where a key that was enqueued can be. -/
def Kept (s : Workshop) (key : Name) : Prop :=
  (∃ c, s.delivery.Waits key c) ∨ s.worker.queue.isDirty key = true ∨
    s.worker.queue.isProcessing key = true ∨ Served key s.history

namespace Kept

theorem of_delivery (h : Kept s key)
    (hw : ∀ c, s.delivery.Waits key c → t.delivery.Waits key c)
    (hq : t.worker.queue = s.worker.queue) (hh : t.history = s.history) : Kept t key := by
  unfold Kept
  rw [hq, hh]
  exact h.imp_left fun ⟨c, hc⟩ => ⟨c, hw c hc⟩

theorem enqueued (s : Workshop) (key : Name) (e : Enqueue) : Kept (s.step (.enqueue key e)) key := by
  refine Or.inl ⟨⟨s.now + e.delay s.worker key, s.now⟩, Or.inl ?_⟩
  simp [step, delivery, asked]

theorem enqueue (h : Kept s key) (k : Name) (e : Enqueue) : Kept (s.step (.enqueue k e)) key := by
  refine h.of_delivery ?_ (Enqueue.queue_make _ _ _ _) rfl
  intro c hw
  rw [delivery_enqueue]
  exact hw.ask _

theorem start (h : Kept s key) : Kept (s.step .start) key := by
  refine h.of_delivery ?_ ?_ ?_
  · intro c hw
    rw [delivery_start]
    exact hw.start
  · simp only [step]
    split <;> rfl
  · simp only [step]
    split <;> rfl

theorem fire (h : Kept s key) : Kept (s.step .fire) key := by
  refine h.of_delivery ?_ rfl rfl
  intro c hw
  rw [delivery_fire]
  exact hw.fire

theorem pass (h : Kept s key) (span : Span) : Kept (s.step (.pass span)) key := by
  refine h.of_delivery ?_ rfl rfl
  intro c hw
  rw [delivery_pass]
  exact hw.pass span

theorem accept (h : Kept s key) (key? : Option Name) : Kept (s.accept key?) key := by
  cases key? with
  | none => exact h
  | some k =>
    rcases h with hw | hd | hp | hs
    · exact Or.inl hw
    · exact Or.inr (Or.inl (by simp [Workshop.accept, Worker.receive, hd]))
    · exact Or.inr (Or.inr (Or.inl (by simp [Workshop.accept, Worker.receive, hp])))
    · by_cases he : k = key
      · exact Or.inr (Or.inl (by simp [Workshop.accept, Worker.receive, he]))
      · exact Or.inr (Or.inr (Or.inr (hs.cons_of_ne he)))

theorem deliver (h : Kept s key) : Kept (s.step .deliver) key := by
  rcases h with ⟨c, hw⟩ | hrest
  · exact (waits_deliver hw).imp (fun hw => ⟨c, hw⟩) fun hd => Or.inl hd.1
  · have hfollow : Kept (s.follow (s.delivery.step .go)) key := Or.inr hrest
    exact hfollow.accept _

theorem work (h : Kept s key) (i : Nat) : Kept (s.step (.work i)) key := by
  simp only [Workshop.step]
  split
  · unfold Kept
    simp only [turn, WorkQueue.Caller.marks_getting]
    exact h
  · rename_i k hi
    unfold Kept
    by_cases he : k = key
    · exact Or.inr (Or.inr (Or.inl (by simp [turn, WorkQueue.Caller.step, he])))
    · refine h.imp_right (Or.imp (fun hd => ?_) (Or.imp (fun hp => ?_) fun hs => hs.cons_of_ne he))
      · simpa [turn, WorkQueue.Caller.step, he] using hd
      · simp [turn, WorkQueue.Caller.step, hp]
  · exact h

/-- After its reconcile a key is called for again, or all went well. -/
theorem finished (hf : Fit s) {i : Nat} (hi : s.crew[i]? = some (.working key))
    (outcome : ReconcileOutcome) : Kept (s.step (.finish i outcome)) key := by
  have hprocessing : s.worker.queue.isProcessing key = true :=
    (hf.staffed.mem_working key).mp
      (List.mem_filterMap.mpr ⟨_, List.mem_of_getElem? hi, rfl⟩)
  cases ha : outcome.again? with
  | some e =>
    refine Or.inl ⟨⟨s.now + e.delay s.worker key, s.now⟩, Or.inl ?_⟩
    simp [Workshop.step, hi, ha, delivery, asked]
  | none =>
    have hok : outcome = .allOk := by cases outcome <;> first | rfl | cases ha
    subst hok
    rcases hf.current key hprocessing with hd | ⟨started, rest, ht⟩
    · exact Or.inr (Or.inl (by simp [Workshop.step, hi, hd]))
    · refine Or.inr (Or.inr (Or.inr ⟨s.now, started, rest, ?_⟩))
      simp only [Workshop.step, hi]
      rw [trace_cons_self, ht]

theorem finish (h : Kept s key) (hf : Fit s) (i : Nat) (outcome : ReconcileOutcome) :
    Kept (s.step (.finish i outcome)) key := by
  cases hi : s.crew[i]? with
  | none =>
    simp only [Workshop.step, hi]
    exact h
  | some c =>
    cases c with
    | working k =>
      by_cases he : k = key
      · subst he
        exact finished hf hi outcome
      · refine h.imp ?_ (Or.imp ?_ (Or.imp ?_ ?_))
        · rintro ⟨c, hw⟩
          refine ⟨c, ?_⟩
          rw [delivery_finish s hi]
          split
          · exact hw.ask _
          · exact hw
        · intro hd
          simpa [Workshop.step, hi] using hd
        · intro hp
          simpa [Workshop.step, hi, he] using hp
        · intro hs
          simp only [Workshop.step, hi]
          exact hs.cons_of_ne he
    | _ =>
      simp only [Workshop.step, hi]
      exact h

theorem step (h : Kept s key) (hf : Fit s) (e : WorkshopEvent) : Kept (s.step e) key := by
  cases e with
  | enqueue k e => exact h.enqueue k e
  | start => exact h.start
  | deliver => exact h.deliver
  | fire => exact h.fire
  | work i => exact h.work i
  | finish i outcome => exact h.finish hf i outcome
  | pass span => exact h.pass span

theorem run (h : Kept s key) (hf : Fit s) (events : List WorkshopEvent) :
    Kept (s.run events) key := by
  induction events generalizing s with
  | nil => exact h
  | cons e rest ih => exact ih (h.step hf e) (hf.step e)

theorem of_enqueued (hf : Fit s) {events : List WorkshopEvent} {e : Enqueue}
    (he : .enqueue key e ∈ events) : Kept (s.run events) key := by
  induction events generalizing s with
  | nil => cases he
  | cons first rest ih =>
    rcases List.mem_cons.mp he with rfl | he
    · exact (enqueued s key e).run (hf.step _) rest
    · exact ih (hf.step first) he

end Kept

/-! What is called for is delivered in time. -/

theorem history_step (s : Workshop) (e : WorkshopEvent) :
    ∃ new, (s.step e).history = new ++ s.history := by
  cases e with
  | enqueue key e => exact ⟨[], rfl⟩
  | start =>
    simp only [step]
    split <;> exact ⟨[], rfl⟩
  | deliver =>
    rw [step]
    cases s.handed? with
    | none => exact ⟨[], rfl⟩
    | some key => exact ⟨[_], rfl⟩
  | fire => exact ⟨[], rfl⟩
  | work i =>
    simp only [step]
    split
    · exact ⟨[], rfl⟩
    · exact ⟨[_], rfl⟩
    · exact ⟨[], rfl⟩
  | finish i outcome =>
    simp only [step]
    split
    · exact ⟨[_], rfl⟩
    · exact ⟨[], rfl⟩
  | pass span => exact ⟨[], rfl⟩

/-- A call is awaited, or the key has been delivered in time, after all that was before. -/
def Promised (s : Workshop) (key : Name) (c : Asked) (before : List Occurrence) : Prop :=
  ∃ after, s.history = after ++ before ∧ (s.delivery.Awaits key c ∨
    ∃ time, ⟨key, .delivered, time⟩ ∈ after ∧ c.made ≤ time ∧ time ≤ max c.deadline c.made)

namespace Promised

variable {before : List Occurrence}

theorem awaits_step (h : s.delivery.Awaits key c) (hf : Fit s) (e : WorkshopEvent) :
    (s.step e).delivery.Awaits key c ∨
      (s.step e).history = ⟨key, .delivered, s.now⟩ :: s.history := by
  cases e with
  | enqueue k e =>
    rw [delivery_enqueue]
    exact Or.inl (h.ask _)
  | start =>
    obtain ⟨loop, ht⟩ := h.running
    have hs : s.step .start = s := by
      have ht' : s.task = .running loop := ht
      simp only [step, ht']
    rw [hs]
    exact Or.inl h
  | deliver =>
    refine (waits_deliver h.waits).imp (fun hw => ?_) And.right
    rw [delivery_deliver] at hw ⊢
    exact h.looped (Delivery.looped_step_go _) hw
  | fire =>
    rw [delivery_fire]
    exact Or.inl (h.looped (Delivery.looped_step_fire _) h.waits.fire)
  | work i =>
    rw [delivery_work]
    exact Or.inl h
  | finish i outcome =>
    left
    by_cases hi : ∃ k, s.crew[i]? = some (.working k)
    · obtain ⟨k, hi⟩ := hi
      rw [delivery_finish s hi]
      split
      · exact h.ask _
      · exact h
    · have hs : s.step (.finish i outcome) = s := by
        simp only [step]
        split
        · rename_i k hk
          exact absurd ⟨k, hk⟩ hi
        · rfl
      rw [hs]
      exact h
  | pass span =>
    rw [delivery_pass]
    exact Or.inl (h.pass hf.lawful span)

theorem step (h : Promised s key c before) (hf : Fit s) (e : WorkshopEvent) :
    Promised (s.step e) key c before := by
  obtain ⟨after, hh, ha | ⟨time, hm, hmade, hdue⟩⟩ := h
  · rcases awaits_step ha hf e with ha' | hd
    · obtain ⟨new, hn⟩ := s.history_step e
      exact ⟨new ++ after, by rw [hn, hh, List.append_assoc], Or.inl ha'⟩
    · refine ⟨⟨key, .delivered, s.now⟩ :: after, by rw [hd, hh, List.cons_append], Or.inr ?_⟩
      exact ⟨s.now, List.mem_cons_self, ha.made, ha.now_le⟩
  · obtain ⟨new, hn⟩ := s.history_step e
    exact ⟨new ++ after, by rw [hn, hh, List.append_assoc],
      Or.inr ⟨time, List.mem_append_right _ hm, hmade, hdue⟩⟩

theorem run (h : Promised s key c before) (hf : Fit s) (events : List WorkshopEvent) :
    Promised (s.run events) key c before := by
  induction events generalizing s with
  | nil => exact h
  | cons e rest ih => exact ih (h.step hf e) (hf.step e)

theorem finished (hf : Fit s) {i : Nat} (hi : s.crew[i]? = some (.working key))
    {outcome : ReconcileOutcome} {e : Enqueue} (he : outcome.again? = some e) :
    Promised (s.step (.finish i outcome)) key ⟨s.now + e.delay s.worker key, s.now⟩ s.history := by
  obtain ⟨loop, ht⟩ := hf.running_of_crew hi
  refine ⟨[⟨key, .ended outcome, s.now⟩], by simp only [Workshop.step, hi, List.singleton_append],
    Or.inl ?_⟩
  rw [delivery_finish s hi, he]
  exact Delivery.Awaits.of_ask hf.lawful ht key _

end Promised

/-! Time goes on for a worker as it does for its delivery loop. -/

theorem run_append (s : Workshop) (a b : List WorkshopEvent) : s.run (a ++ b) = (s.run a).run b :=
  List.foldl_append

theorem follows (events : List (DeliveryEvent Name)) (s : Workshop)
    (h : ∀ e ∈ events, e = .go ∨ e = .stop ∨ e = .pass 1) :
    ∃ more : List WorkshopEvent, (∀ e ∈ more, e = .deliver ∨ e = .pass 1 ∧ .pass 1 ∈ events) ∧
      (s.run more).delivery = s.delivery.run events := by
  induction events generalizing s with
  | nil => exact ⟨[], nofun, rfl⟩
  | cons e rest ih =>
    have hrest : ∀ e ∈ rest, e = .go ∨ e = .stop ∨ e = .pass 1 :=
      fun e he => h e (List.mem_cons_of_mem _ he)
    have later {more : List WorkshopEvent}
        (hall : ∀ e ∈ more, e = .deliver ∨ e = .pass 1 ∧ .pass 1 ∈ rest) :
        ∀ e' ∈ more, e' = .deliver ∨ e' = .pass 1 ∧ .pass 1 ∈ e :: rest :=
      fun e' he' => (hall e' he').imp_right (And.imp_right (List.mem_cons_of_mem _))
    rcases h e List.mem_cons_self with rfl | rfl | rfl
    · obtain ⟨more, hall, hd⟩ := ih (s.step .deliver) hrest
      rw [delivery_deliver] at hd
      exact ⟨.deliver :: more, List.forall_mem_cons.mpr ⟨Or.inl rfl, later hall⟩, hd⟩
    · -- nothing has been cancelled, so the loop does not stop
      obtain ⟨more, hall, hd⟩ := ih s hrest
      have hs : s.delivery.step .stop = s.delivery := by
        simp only [Delivery.step]
        split <;> rfl
      refine ⟨more, later hall, hd.trans ?_⟩
      simp only [Delivery.run, List.foldl_cons, hs]
    · obtain ⟨more, hall, hd⟩ := ih (s.step (.pass 1)) hrest
      rw [delivery_pass] at hd
      exact ⟨.pass 1 :: more,
        List.forall_mem_cons.mpr ⟨Or.inr ⟨rfl, List.mem_cons_self⟩, later hall⟩, hd⟩

/-- The loop comes to rest by its own steps, which take no time. -/
theorem settles (h : Fit s) : ∃ more : List WorkshopEvent, (∀ e ∈ more, e = .deliver) ∧
    (s.run more).delivery.atRest = true ∧ (s.run more).now = s.now := by
  obtain ⟨events, hall, hrest, hnow⟩ := Delivery.Settles.of_lawful h.lawful
  obtain ⟨more, hmore, hd⟩ := follows events s fun e he => (hall e he).imp_right Or.inl
  rw [← hd] at hrest hnow
  refine ⟨more, fun e he => ?_, hrest, hnow⟩
  rcases hmore e he with he | ⟨-, hpass⟩
  · exact he
  · rcases hall _ hpass with hp | hp <;> cases hp

theorem reaches (h : Fit s) (span : Span) :
    ∃ more : List WorkshopEvent, (∀ e ∈ more, e = .deliver ∨ e = .pass 1) ∧
      (s.run more).now = s.now + span := by
  obtain ⟨events, hall, hnow⟩ := Delivery.reaches h.lawful span
  obtain ⟨more, hmore, hd⟩ := follows events s hall
  refine ⟨more, fun e he => (hmore e he).imp_right And.left, ?_⟩
  rw [← hd] at hnow
  exact hnow

theorem maxConcurrent_step (s : Workshop) (e : WorkshopEvent) :
    (s.step e).worker.maxConcurrent = s.worker.maxConcurrent := by
  cases e with
  | enqueue key e => exact Enqueue.maxConcurrent_make _ _ _ _
  | deliver =>
    rw [step]
    cases s.handed? <;> rfl
  | start | work i | finish i outcome =>
    simp only [step]
    split <;> simp [turn, follow]
  | fire | pass span => rfl

theorem maxConcurrent_run (s : Workshop) (events : List WorkshopEvent) :
    (s.run events).worker.maxConcurrent = s.worker.maxConcurrent := by
  induction events generalizing s with
  | nil => rfl
  | cons e rest ih => exact (ih (s.step e)).trans (maxConcurrent_step s e)

/-- After a first error a key waits for the initial backoff. -/
example :
    let key : Name := ⟨"apps", "web"⟩
    let s := (new (Worker.new "sync" .standard 1)).run [.enqueue key .now, .start, .deliver, .fire,
      .deliver, .work 0, .work 0, .finish 0 .error]
    s.worker.deliverer.pending.deadline? key = some 5000 := by decide

end FedTrack.Workshop
