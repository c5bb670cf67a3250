import FedTrack.Proofs.Work.Lawful
import FedTrack.Simulation.DeliveryRun

namespace FedTrack.Delivery

variable {K : Type} [Key K]

/-! Time can always go on. -/

/-- What the loop does by itself brings it to rest. -/
def Settles (s : Delivery K) : Prop :=
  ∃ events, (∀ e ∈ events, e = .go ∨ e = .stop) ∧ (s.run events).atRest = true ∧
    (s.run events).now = s.now

namespace Settles

variable {s : Delivery K}

theorem of_rest (h : s.atRest = true) : Settles s := ⟨[], by simp, h, rfl⟩

theorem of_step {e : DeliveryEvent K} (he : e = .go ∨ e = .stop) (h : Settles (s.step e))
    (hnow : (s.step e).now = s.now) : Settles s := by
  obtain ⟨events, hall, hr, hn⟩ := h
  refine ⟨e :: events, ?_, hr, hn.trans hnow⟩
  intro e' he'
  rcases List.mem_cons.mp he' with rfl | he'
  · exact he
  · exact hall e' he'

theorem of_go {loop : DeliveryLoop K} (ht : s.task = .running loop) (h : Settles (s.go loop)) :
    Settles s := by
  have hs : s.step .go = s.go loop := by simp only [step, ht]
  exact of_step (Or.inl rfl) (hs ▸ h) (hs ▸ rfl)

/-- A loop that is not waiting hands over what it has in hand and arms its timer. -/
theorem of_armed (h : ∀ t : Delivery K, t.deliverer = s.deliverer →
      t.task = .running (.waiting s.deliverer.pending.nextDeadline) → t.now = s.now → Settles t)
    {loop : DeliveryLoop K} (ht : s.task = .running loop) (hw : ∀ next, loop ≠ .waiting next) :
    Settles s := by
  have arming {t : Delivery K} (hd : t.deliverer = s.deliverer) (hn : t.now = s.now)
      (ht : t.task = .running .arming) : Settles t :=
    of_go ht (h _ hd (by rw [← hd]; rfl) hn)
  have handing (keys : List K) {t : Delivery K} (hd : t.deliverer = s.deliverer)
      (hn : t.now = s.now) (ht : t.task = .running (.handing keys)) : Settles t := by
    induction keys generalizing t with
    | nil => exact of_go ht (arming hd hn rfl)
    | cons key rest ih => exact of_go ht (ih hd hn rfl)
  cases loop with
  | arming => exact arming rfl rfl ht
  | handing keys => exact handing keys rfl rfl ht
  | waiting next => exact absurd rfl (hw next)

theorem of_calm {next : Option Time} (ht : s.task = .running (.waiting next))
    (hn : s.deliverer.notified = false) (hd : next.any (· ≤ s.now) = false) : Settles s := by
  cases hc : s.cancelled with
  | false =>
    apply of_rest
    simp [atRest, ht, hc, DeliveryLoop.ready, hn, hd]
  | true =>
    have hs : s.step .stop = { s with task := .ended } := by simp [step, ht, hc]
    exact of_step (Or.inr rfl) (hs ▸ of_rest rfl) (hs ▸ rfl)

theorem of_unnoticed {next : Option Time} (hp : s.deliverer.pending.Paired)
    (ht : s.task = .running (.waiting next)) (hn : s.deliverer.notified = false) : Settles s := by
  rcases go_waiting ht hn with ⟨-, hd⟩ | ⟨-, hgo⟩
  · exact of_calm ht hn hd
  · refine of_go ht (hgo ▸ of_armed ?_ rfl (by simp))
    intro t hdt htt hnow
    have hnt : t.deliverer.notified = false := by rw [hdt]
    refine of_calm htt hnt ?_
    -- nothing that is due is left
    rw [Option.any_eq_false]
    intro time he
    obtain ⟨key, hk⟩ := Pending.nextDeadline_mem (hp.popDue s.now) he
    rw [Pending.deadline?_popDue] at hk
    split at hk
    · cases hk
    · rename_i hdue
      have hlt : ¬ time ≤ s.now := fun hle => hdue (hp.mem_dueBy_keys.mpr ⟨time, hk, hle⟩)
      simpa [hnow] using hlt

theorem of_running {loop : DeliveryLoop K} (hp : s.deliverer.pending.Paired)
    (ht : s.task = .running loop) : Settles s := by
  have waiting {t : Delivery K} {next : Option Time} (hp : t.deliverer.pending.Paired)
      (ht : t.task = .running (.waiting next)) : Settles t := by
    cases hn : t.deliverer.notified with
    | false => exact of_unnoticed hp ht hn
    | true =>
      have hgo : t.go (.waiting next) =
          { t with deliverer := ⟨t.deliverer.pending, false⟩, task := .running .arming } := by
        simp [go, DeliveryLoop.step, hn, deed?]
      refine of_go ht (hgo ▸ of_armed ?_ rfl (by simp))
      intro u hdu htu _
      exact of_unnoticed (hdu ▸ hp) htu (by rw [hdu])
  cases loop with
  | waiting next => exact waiting hp ht
  | arming => exact of_armed (fun t hd ht _ => waiting (hd ▸ hp) ht) ht (by simp)
  | handing keys => exact of_armed (fun t hd ht _ => waiting (hd ▸ hp) ht) ht (by simp)

theorem of_lawful (h : Lawful s) : Settles s := by
  cases ht : s.task with
  | absent => exact of_rest (by simp only [atRest, ht])
  | ended => exact of_rest (by simp only [atRest, ht])
  | running loop => exact of_running h.paired ht

end Settles

theorem run_append (s : Delivery K) (a b : List (DeliveryEvent K)) :
    s.run (a ++ b) = (s.run a).run b :=
  List.foldl_append

/-- At rest a moment may always pass. -/
theorem step_pass_one {s : Delivery K} (h : Lawful s) (hr : s.atRest = true) :
    (s.step (.pass 1)).now = s.now + 1 := by
  have halarm : s.alarm?.all (s.now + 1 ≤ ·) = true := by
    cases ht : s.task with
    | absent => simp only [alarm?, ht, Option.all_none]
    | ended => simp only [alarm?, ht, Option.all_none]
    | running loop =>
      obtain ⟨-, rfl, -, hlt⟩ := h.rested ht hr
      simp only [alarm?, ht, DeliveryLoop.alarm, Option.all_eq_true, decide_eq_true_eq]
      intro time hn
      obtain ⟨key, hd⟩ := Pending.nextDeadline_mem h.paired hn
      exact hlt key time hd
  simp only [step, hr, halarm, Bool.and_true, if_true]

/-- Left to itself a deliverer gets to any later time. -/
theorem reaches {s : Delivery K} (h : Lawful s) (span : Span) : ∃ events : List (DeliveryEvent K),
    (∀ e ∈ events, e = .go ∨ e = .stop ∨ e = .pass 1) ∧ (s.run events).now = s.now + span := by
  induction span with
  | zero => exact ⟨[], by simp, rfl⟩
  | succ span ih =>
    obtain ⟨earlier, hall, hnow⟩ := ih
    have hl := h.run earlier
    obtain ⟨settling, hsettling, hr, hn⟩ := Settles.of_lawful hl
    refine ⟨earlier ++ settling ++ [.pass 1], ?_, ?_⟩
    · intro e he
      rcases List.mem_append.mp he with he | he
      · rcases List.mem_append.mp he with he | he
        · exact hall e he
        · exact (hsettling e he).imp_right Or.inl
      · exact Or.inr (Or.inr (List.mem_singleton.mp he))
    · rw [run_append, run_append]
      refine (step_pass_one (hl.run settling) hr).trans ?_
      rw [hn, hnow]
      rfl

/-! Cancelation. -/

/-- After a cancelation that found nothing due, only what is called for once more at that time
is still handed over. -/
structure Dropping (before after : List (Deed K)) (s : Delivery K) : Prop where
  log : s.log = after ++ before
  begun : s.task ≠ .absent
  cancelled : ∀ loop, s.task = .running loop → s.cancelled = true
  due : ∀ loop, s.task = .running loop → ∀ key time,
    s.deliverer.pending.deadline? key = some time → time ≤ s.now → ∃ c, .asked key c ∈ after
  hand : ∀ key ∈ s.inHand, ∃ c, .asked key c ∈ after
  handed : ∀ key time, .handed key time ∈ after → ∃ c, .asked key c ∈ after

namespace Dropping

variable {s : Delivery K} {before after : List (Deed K)}

theorem cancel {loop : DeliveryLoop K} (h : Lawful s) (ht : s.task = .running loop)
    (hr : s.atRest = true) : Dropping (.cancelled s.now :: s.log) [] (s.step .cancel) := by
  obtain ⟨-, rfl, -, hlt⟩ := h.rested ht hr
  simp only [step, ht]
  exact {
    log := rfl
    begun := by simp
    cancelled := fun _ _ => rfl
    due := fun _ _ key time hd hle => absurd hle (Nat.not_le_of_lt (hlt key time hd))
    hand := by simp [inHand]
    handed := by simp }

omit [Key K] in
theorem asked_mono {d : Deed K} {key : K} (h : ∃ c, .asked key c ∈ after) :
    ∃ c, .asked key c ∈ d :: after :=
  h.imp fun _ hc => List.mem_cons_of_mem _ hc

/-- The loop goes on with nothing in hand. -/
theorem turned {loop loop' : DeliveryLoop K} {d : Deliverer K} (h : Dropping before after s)
    (ht : s.task = .running loop) (hd : d.pending = s.deliverer.pending)
    (hnone : ∀ keys, loop' ≠ .handing keys) :
    Dropping before after { s with deliverer := d, task := .running loop' } := by
  refine { h with
    begun := by simp
    cancelled := fun _ _ => h.cancelled loop ht
    due := ?_
    hand := ?_ }
  · intro _ _
    rw [hd]
    exact h.due loop ht
  · cases loop' with
    | handing keys => exact absurd rfl (hnone keys)
    | _ => simp [inHand]

theorem looped {t : Delivery K} (h : Dropping before after s) (hp : s.deliverer.pending.Paired)
    (hl : Looped s t) : ∃ after', Dropping before after' t := by
  cases hl with
  | idle => exact ⟨after, h⟩
  | armed ht => exact ⟨after, h.turned ht rfl (by simp)⟩
  | noticed ht => exact ⟨after, h.turned ht rfl (by simp)⟩
  | drained ht => exact ⟨after, h.turned ht rfl (by simp)⟩
  | found ht =>
    refine ⟨.found (s.deliverer.pending.dueBy s.now) s.now :: after, {
      log := by rw [h.log, List.cons_append]
      begun := by simp
      cancelled := fun _ _ => h.cancelled _ ht
      due := ?_
      hand := ?_
      handed := ?_ }⟩
    · intro _ _ key time hd hle
      dsimp only at hd
      rw [Pending.deadline?_popDue] at hd
      split at hd
      · cases hd
      · exact asked_mono (h.due _ ht key time hd hle)
    · intro key hk
      obtain ⟨time, hd, hle⟩ := hp.mem_dueBy_keys.mp hk
      exact asked_mono (h.due _ ht key time hd hle)
    · intro key time hm
      have hm' : .handed key time ∈ after := by simpa using hm
      exact asked_mono (h.handed key time hm')
  | @handed key rest ht =>
    have hand : ∀ k ∈ key :: rest, ∃ c, .asked k c ∈ after := by
      have hh := h.hand
      simpa only [inHand, ht] using hh
    refine ⟨.handed key s.now :: after, {
      log := by rw [h.log, List.cons_append]
      begun := by simp
      cancelled := fun _ _ => h.cancelled _ ht
      due := fun _ _ k time hd hle => asked_mono (h.due _ ht k time hd hle)
      hand := fun k hk => asked_mono (hand k (List.mem_cons_of_mem _ hk))
      handed := ?_ }⟩
    intro k time hm
    rcases List.mem_cons.mp hm with he | hm
    · cases he
      exact asked_mono (hand key List.mem_cons_self)
    · exact asked_mono (h.handed k time hm)

theorem ask (h : Dropping before after s) (c : DeliveryCall K) :
    Dropping before (.asked c.key ⟨c.deadline s.now, s.now⟩ :: after) (s.step (.ask c)) := by
  rw [step_ask]
  refine {
    log := by rw [h.log, List.cons_append]
    begun := h.begun
    cancelled := h.cancelled
    due := ?_
    hand := fun key hk => asked_mono (h.hand key hk)
    handed := ?_ }
  · intro loop ht key time hd hle
    dsimp only at hd
    rw [Pending.deadline?_schedule] at hd
    split at hd
    · rename_i hkey
      rw [← hkey]
      exact ⟨_, List.mem_cons_self⟩
    · exact asked_mono (h.due loop ht key time hd hle)
  · intro key time hm
    have hm' : .handed key time ∈ after := by simpa using hm
    exact asked_mono (h.handed key time hm')

/-- Another cancelation makes no difference. -/
theorem again {loop : DeliveryLoop K} (h : Dropping before after s) (ht : s.task = .running loop) :
    Dropping before (.cancelled s.now :: after) (s.step .cancel) := by
  have hand := h.hand
  simp only [inHand, ht] at hand
  simp only [Delivery.step, ht]
  exact {
    log := by rw [h.log, List.cons_append]
    begun := by simp
    cancelled := fun _ _ => rfl
    due := fun _ _ key time hd hle => asked_mono (h.due loop ht key time hd hle)
    hand := fun key hk => asked_mono (hand key hk)
    handed := by
      intro key time hm
      have hm' : .handed key time ∈ after := by simpa using hm
      exact asked_mono (h.handed key time hm') }

theorem step (h : Dropping before after s) (hl : Lawful s) (e : DeliveryEvent K) :
    ∃ after', Dropping before after' (s.step e) := by
  cases e with
  | ask c => exact ⟨_, h.ask c⟩
  | start =>
    cases ht : s.task with
    | absent => exact absurd ht h.begun
    | running loop =>
      simp only [Delivery.step, ht]
      exact ⟨after, h⟩
    | ended =>
      simp only [Delivery.step, ht]
      exact ⟨after, h⟩
  | go => exact h.looped hl.paired (looped_step_go s)
  | fire => exact h.looped hl.paired (looped_step_fire s)
  | cancel =>
    cases ht : s.task with
    | absent => exact absurd ht h.begun
    | ended =>
      simp only [Delivery.step, ht]
      exact ⟨after, h⟩
    | running loop => exact ⟨_, h.again ht⟩
  | stop =>
    simp only [Delivery.step]
    split
    · split
      · exact ⟨after, { h with
          begun := by simp
          cancelled := by simp
          due := by simp
          hand := by simp [inHand] }⟩
      · exact ⟨after, h⟩
    · exact ⟨after, h⟩
  | pass span =>
    simp only [Delivery.step]
    split
    · rename_i hp
      -- time passes only once the loop has ended
      have hrun : ∀ loop, s.task ≠ .running loop := by
        intro loop ht
        have hc := (hl.rested ht (Bool.and_eq_true_iff.mp hp).1).1
        rw [h.cancelled loop ht] at hc
        cases hc
      exact ⟨after, { h with due := fun loop ht => absurd ht (hrun loop) }⟩
    · exact ⟨after, h⟩

theorem run (h : Dropping before after s) (hl : Lawful s) (events : List (DeliveryEvent K)) :
    ∃ after', Dropping before after' (s.run events) := by
  induction events generalizing s after with
  | nil => exact ⟨after, h⟩
  | cons e rest ih =>
    obtain ⟨after', h'⟩ := h.step hl e
    exact ih h' (hl.step e)

end Dropping

/-- A loop that has ended delivers nothing. -/
theorem step_ended {s : Delivery K} (h : s.task = .ended) (e : DeliveryEvent K) :
    (s.step e).task = .ended ∧ Deed.handovers (s.step e).log = Deed.handovers s.log := by
  cases e with
  | ask call => exact ⟨h, rfl⟩
  | pass span =>
    simp only [step]
    split <;> exact ⟨h, rfl⟩
  | _ =>
    simp only [step, h]
    exact ⟨trivial, trivial⟩

theorem run_ended {s : Delivery K} (h : s.task = .ended) (events : List (DeliveryEvent K)) :
    Deed.handovers (s.run events).log = Deed.handovers s.log := by
  induction events generalizing s with
  | nil => rfl
  | cons e rest ih =>
    obtain ⟨he, hlog⟩ := step_ended h e
    exact (ih he).trans hlog

/-- The law of delivery, for every order in which calls, also those made while keys are handed
over, the steps of the loop and its cancelation come. Each batch of calls for a key ends when the
key is found due, once, with all that is due then, in the order of deadline and key, and just when
the first of the calls is due. The batch is what was called for since the key was handed over last,
with what had come while it was in hand then. No call in a batch is past due. What is found is
handed over at that time, each key once, in the order found. Nothing is delivered later than a
cancelation; if nothing was due then, only what is called for again at that time still is, and once
the loop has ended nothing at all is delivered. What was not found stays pending, at the earliest
deadline asked for. And time never comes to a stop. -/
theorem delivery_law (events : List (DeliveryEvent K)) :
    (∀ due time earlier, (.found due time :: earlier) <:+ (new.run events).log →
      Timely (new.run events).begun due time earlier) ∧
    (∀ loop, (new.run events).task = .running loop →
      ∀ key, ∀ c ∈ Deed.batch key (new.run events).log,
        (new.run events).now ≤ c.due (new.run events).begun) ∧
    Deed.handovers (new.run events).log ++
        (new.run events).inHand.map (fun key => (key, (new.run events).now)) =
      Deed.findings (new.run events).log ∧
    (∀ d earlier, (d :: earlier) <:+ (new.run events).log → ∀ time, d.delivery? = some time →
      ∀ cancelled, .cancelled cancelled ∈ earlier → cancelled = time) ∧
    (∀ earlier later loop, events = earlier ++ .cancel :: later →
      (new.run earlier).task = .running loop → (new.run earlier).atRest = true →
        ∃ after, (new.run events).log =
            after ++ .cancelled (new.run earlier).now :: (new.run earlier).log ∧
          ∀ key time, .handed key time ∈ after → ∃ c, .asked key c ∈ after) ∧
    (∀ earlier later, events = earlier ++ later → (new.run earlier).task = .ended →
      Deed.handovers (new.run events).log = Deed.handovers (new.run earlier).log) ∧
    (∀ key, (new.run events).deliverer.pending.deadline? key =
      Deed.earliest key (new.run events).log) ∧
    ∀ span, ∃ more : List (DeliveryEvent K), (∀ e ∈ more, e = .go ∨ e = .stop ∨ e = .pass 1) ∧
      (new.run (events ++ more)).now = (new.run events).now + span := by
  have h : Lawful (new.run events) := Lawful.new.run events
  refine ⟨h.told.timely, h.punctual, h.handing, h.told.late, ?_, ?_, h.deadlines, ?_⟩
  · intro earlier later loop he ht hr
    have hl : Lawful (new.run earlier) := Lawful.new.run earlier
    obtain ⟨after, hd⟩ := (Dropping.cancel hl ht hr).run hl.cancel later
    have hrun : new.run events = ((new.run earlier).step .cancel).run later := by
      rw [he, run_append]
      rfl
    exact ⟨after, hrun ▸ hd.log, hd.handed⟩
  · intro earlier later he hended
    rw [he, run_append]
    exact run_ended hended later
  · intro span
    obtain ⟨more, hall, hnow⟩ := reaches h span
    exact ⟨more, hall, by rw [run_append, hnow]⟩

/-- Of the deadlines asked for the earliest counts. Once the loop is cancelled it delivers no more
than a key that is called for again at that time; what is called for later stays pending. -/
theorem delivery_law_sample :
    let asked : List (DeliveryEvent Nat) :=
      [.start, .go, .ask (.after 7 10), .ask (.after 7 2), .ask (.at 8 5), .go, .go]
    let ended := asked ++ [.cancel, .ask (.now 8), .go, .go, .fire, .go, .go, .go, .stop]
    let s := new.run (asked ++ [.pass 2, .go, .go])
    let t := new.run (ended ++ [.ask (.now 7), .go, .fire, .pass 9])
    Timely 0 [(2, 7)] 2 [.asked 8 ⟨5, 0⟩, .asked 7 ⟨2, 0⟩, .asked 7 ⟨10, 0⟩] ∧
    Deed.handovers s.log = [(7, 2)] ∧ (new.run asked).atRest = true ∧
    (∃ after, t.log = after ++ .cancelled 0 :: (new.run asked).log ∧
      ∀ key time, .handed key time ∈ after → ∃ c, .asked key c ∈ after) ∧
    (new.run ended).task = .ended ∧ Deed.handovers t.log = [(8, 0)] ∧
    t.deliverer.pending.deadline? 7 = some 0 := by
  intro asked ended s t
  obtain ⟨htimely, -⟩ := delivery_law (asked ++ [.pass 2, .go, .go])
  obtain ⟨-, -, -, -, hcancelled, hended, hpending, -⟩ :=
    delivery_law (ended ++ [.ask (.now 7), .go, .fire, .pass 9])
  have hfound : s.log = [.handed 7 2] ++ (.found [(2, 7)] 2 ::
      [.asked 8 ⟨5, 0⟩, .asked 7 ⟨2, 0⟩, .asked 7 ⟨10, 0⟩]) := rfl
  have hhanded : Deed.handovers (new.run ended).log = [(8, 0)] := by decide
  refine ⟨htimely _ _ _ (hfound ▸ List.suffix_append _ _), by decide, rfl,
    hcancelled asked _ _ rfl rfl rfl, rfl, (hended ended _ rfl rfl).trans hhanded,
    (hpending 7).trans (by decide)⟩

/-- A cancelation keeps back neither what is due at that time nor, for a loop started later, what is
still pending. And a key that is called for while in hand is handed over twice with no call in
between. -/
theorem delivered_once_more :
    (new.run (K := Nat) [.start, .ask (.now 7), .cancel, .go, .fire, .go]).log =
      [.handed 7 0, .found [(0, 7)] 0, .cancelled 0, .asked 7 ⟨0, 0⟩] ∧
    ([.start, .after "a" 1000, .cancel, .advance 2000, .start].foldl
      Simulation.DeliveryRun.perform .new).world.delivered = [("a", 2000)] ∧
    (new.run (K := Nat) [.start, .ask (.now 1), .ask (.now 2), .go, .fire, .go, .ask (.now 2),
        .go, .go, .go, .fire, .go]).log =
      [.handed 2 0, .found [(0, 2)] 0, .handed 2 0, .asked 2 ⟨0, 0⟩, .handed 1 0,
        .found [(0, 1), (0, 2)] 0, .asked 2 ⟨0, 0⟩, .asked 1 ⟨0, 0⟩] := by
  refine ⟨rfl, ?_, rfl⟩
  decide +kernel

end FedTrack.Delivery
