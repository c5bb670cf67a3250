import FedTrack.Proofs.Work.Delivery

namespace FedTrack.Delivery

variable {K : Type} [Key K]

/-- What was found due is just what had to be delivered: all keys due, each of them once, in the
order of deadline and key, at the time at which the first of the calls for it was due. These are
the calls since it was handed over last, and those that had come while it was in hand then. -/
structure Timely (begun : Time) (due : List (Time × K)) (time : Time) (earlier : List (Deed K)) :
    Prop where
  ordered : due.Pairwise fun a b => Key.lt a b = true
  nodup : (due.map Prod.snd).Nodup
  all : ∀ deadline key, (deadline, key) ∈ due ↔
    Deed.earliest key earlier = some deadline ∧ deadline ≤ time
  punctual : ∀ deadline key, (deadline, key) ∈ due →
    (∃ c ∈ Deed.batch key earlier, c.deadline = deadline ∧ time = c.due begun) ∧
      ∀ c ∈ Deed.batch key earlier, time ≤ c.due begun
  batches : ∀ key, Deed.batch key earlier = Deed.since key earlier ++ Deed.meanwhile key earlier

/-- What the log tells of all deliveries. None comes later than a cancelation. -/
structure Told (begun : Time) (log : List (Deed K)) : Prop where
  timely : ∀ due time earlier, (.found due time :: earlier) <:+ log →
    Timely begun due time earlier
  late : ∀ d earlier, (d :: earlier) <:+ log → ∀ time, d.delivery? = some time →
    ∀ cancelled, .cancelled cancelled ∈ earlier → cancelled = time

namespace Told

variable {begun : Time} {log : List (Deed K)}

theorem nil : Told begun ([] : List (Deed K)) := by
  constructor
  · intro due time earlier h
    cases List.suffix_nil.mp h
  · intro d earlier h
    cases List.suffix_nil.mp h

theorem cons (h : Told begun log) {d : Deed K}
    (hfound : ∀ due time, d = .found due time → Timely begun due time log)
    (hlate : ∀ time, d.delivery? = some time → ∀ cancelled, .cancelled cancelled ∈ log →
      cancelled = time) : Told begun (d :: log) := by
  constructor
  · intro due time earlier hs
    rcases List.suffix_cons_iff.mp hs with he | hs
    · cases he
      exact hfound due time rfl
    · exact h.timely due time earlier hs
  · intro d' earlier hs
    rcases List.suffix_cons_iff.mp hs with he | hs
    · cases he
      exact hlate
    · exact h.late d' earlier hs

/-- What is no delivery changes nothing. -/
theorem quiet (h : Told begun log) {d : Deed K} (hd : d.delivery? = none) :
    Told begun (d :: log) := by
  refine h.cons ?_ ?_
  · rintro due time rfl
    cases hd
  · intro time ht
    rw [hd] at ht
    cases ht

/-- Where nothing has been delivered the loop may have begun at any time. -/
theorem of_untouched (h : ∀ d ∈ log, d.delivery? = none) : Told begun log := by
  induction log with
  | nil => exact nil
  | cons d log ih =>
    exact (ih fun d hd => h d (List.mem_cons_of_mem _ hd)).quiet (h d List.mem_cons_self)

end Told

/-- What holds of a deliverer at any time. -/
structure Lawful (s : Delivery K) : Prop where
  paired : s.deliverer.pending.Paired
  deadlines : ∀ key, s.deliverer.pending.deadline? key = Deed.earliest key s.log
  begun : s.begun ≤ s.now
  made : ∀ key, ∀ c ∈ Deed.batch key s.log, c.made ≤ s.now
  untouched : s.task = .absent → ∀ d ∈ s.log, d.delivery? = none
  punctual : ∀ loop, s.task = .running loop → ∀ key, ∀ c ∈ Deed.batch key s.log,
    s.now ≤ c.due s.begun
  timer : ∀ next, s.task = .running (.waiting next) →
    s.deliverer.notified = true ∨ next = s.deliverer.pending.nextDeadline
  handing : Deed.handovers s.log ++ s.inHand.map (fun key => (key, s.now)) = Deed.findings s.log
  batches : ∀ key ∉ s.inHand,
    Deed.batch key s.log = Deed.since key s.log ++ Deed.meanwhile key s.log
  cancelled : ∀ time, .cancelled time ∈ s.log →
    s.task ≠ .absent ∧ ∀ loop, s.task = .running loop → s.cancelled = true ∧ time = s.now
  told : Told s.begun s.log

namespace Lawful

variable {s : Delivery K}

theorem new : Lawful (new : Delivery K) where
  paired := Pending.paired_empty
  deadlines _ := rfl
  begun := Nat.le_refl _
  made := nofun
  untouched := nofun
  punctual := nofun
  timer := nofun
  handing := rfl
  batches _ _ := rfl
  cancelled := nofun
  told := .nil

theorem ask (h : Lawful s) (c : DeliveryCall K) : Lawful (s.step (.ask c)) := by
  rw [step_ask]
  exact {
    paired := h.paired.schedule _ _
    deadlines := by
      intro key
      dsimp only
      rw [Pending.deadline?_schedule, Deed.earliest_asked, h.deadlines c.key, h.deadlines key]
      split
      · rename_i hk
        rw [hk]
      · rfl
    begun := h.begun
    made := by
      intro key a ha
      rcases Deed.mem_batch_asked ha with rfl | ha
      · exact Nat.le_refl _
      · exact h.made key a ha
    untouched := by
      intro ht d hd
      rcases List.mem_cons.mp hd with rfl | hd
      · rfl
      · exact h.untouched ht d hd
    punctual := by
      intro loop ht key a ha
      rcases Deed.mem_batch_asked ha with rfl | ha
      · exact Nat.le_trans (Nat.le_max_left _ _) (Nat.le_max_right _ _)
      · exact h.punctual loop ht key a ha
    timer := by
      intro next ht
      dsimp only
      cases hc : (s.deliverer.pending.schedule c.key (c.deadline s.now)).2 with
      | true => exact Or.inl (Bool.or_true _)
      | false =>
        rw [Bool.or_false, Pending.schedule_of_unchanged hc]
        exact h.timer next ht
    handing := h.handing
    batches := by
      intro key hk
      rw [Deed.batch_asked, Deed.since_asked, h.batches key hk]
      split <;> rfl
    cancelled := by
      intro time hm
      rcases List.mem_cons.mp hm with he | hm
      · cases he
      · exact h.cancelled time hm
    told := h.told.quiet rfl }

/-- With nothing in hand no key is on its way. -/
theorem batches_of_free (h : Lawful s) (hnone : s.inHand = []) (key : K) :
    Deed.batch key s.log = Deed.since key s.log ++ Deed.meanwhile key s.log :=
  h.batches key (by rw [hnone]; exact nofun)

theorem start (h : Lawful s) : Lawful (s.step .start) := by
  cases ht : s.task with
  | absent =>
    simp only [step, ht]
    have hh := h.handing
    simp only [inHand, ht] at hh
    exact { h with
      begun := Nat.le_refl _
      untouched := by simp
      punctual := fun _ _ _ _ _ => Nat.le_trans (Nat.le_max_right _ _) (Nat.le_max_right _ _)
      timer := by simp
      handing := hh
      batches := fun key _ => h.batches_of_free (by simp only [inHand, ht]) key
      cancelled := fun time hm => absurd ht (h.cancelled time hm).1
      told := .of_untouched (h.untouched ht) }
  | running loop =>
    simp only [step, ht]
    exact h
  | ended =>
    simp only [step, ht]
    exact h

/-- What is found due is due at this very time. -/
theorem timely {next : Option Time} (h : Lawful s) (ht : s.task = .running (.waiting next)) :
    Timely s.begun (s.deliverer.pending.dueBy s.now) s.now s.log where
  ordered := s.deliverer.pending.pairwise_dueBy s.now
  nodup := h.paired.nodup_dueBy s.now
  all deadline key := by rw [h.paired.mem_dueBy, h.deadlines]
  punctual := by
    intro deadline key hdue
    obtain ⟨hd, hle⟩ := h.paired.mem_dueBy.mp hdue
    rw [h.deadlines] at hd
    obtain ⟨c, hc, rfl⟩ := Deed.exists_of_earliest hd
    have hdue : c.due s.begun ≤ s.now :=
      Nat.max_le.mpr ⟨hle, Nat.max_le.mpr ⟨h.made key c hc, h.begun⟩⟩
    exact ⟨⟨c, hc, rfl, Nat.le_antisymm (h.punctual _ ht key c hc) hdue⟩, h.punctual _ ht key⟩
  batches := h.batches_of_free (by simp only [inHand, ht])

theorem cancelled_of_running {loop : DeliveryLoop K} (h : Lawful s) (ht : s.task = .running loop)
    {time : Time} (hm : .cancelled time ∈ s.log) : s.cancelled = true ∧ time = s.now :=
  (h.cancelled time hm).2 loop ht

section
variable {loop : DeliveryLoop K} {d : Deed K} (h : Lawful s) (ht : s.task = .running loop)
  (hd : d.delivery? = some s.now)
include h ht hd

theorem cancelled_of_delivered {time : Time} (hm : .cancelled time ∈ d :: s.log) :
    s.cancelled = true ∧ time = s.now := by
  rcases List.mem_cons.mp hm with rfl | hm
  · cases hd
  · exact h.cancelled_of_running ht hm

/-- A delivery of a running loop comes at the time of its cancelation at the latest. -/
theorem told_of_delivered
    (hfound : ∀ due time, d = .found due time → Timely s.begun due time s.log) :
    Told s.begun (d :: s.log) := by
  refine h.told.cons hfound ?_
  intro time he cancelled hm
  cases hd.symm.trans he
  exact (h.cancelled_of_running ht hm).2

end

/-- The loop goes on with nothing in hand, before and after. -/
theorem turned {loop loop' : DeliveryLoop K} {notified : Bool} (h : Lawful s)
    (ht : s.task = .running loop) (hnone : s.inHand = []) (hnone' : ∀ keys, loop' ≠ .handing keys)
    (htimer : ∀ next, loop' = .waiting next →
      notified = true ∨ next = s.deliverer.pending.nextDeadline) :
    Lawful { s with deliverer := ⟨s.deliverer.pending, notified⟩, task := .running loop' } := by
  have hh := h.handing
  rw [hnone] at hh
  exact { h with
    untouched := by simp
    punctual := fun _ _ => h.punctual loop ht
    timer := by
      intro next hn
      cases hn
      exact htimer next rfl
    handing := by
      cases loop' with
      | handing keys => exact absurd rfl (hnone' keys)
      | arming => exact hh
      | waiting next => exact hh
    batches := fun key _ => h.batches_of_free hnone key
    cancelled := fun _ hm => ⟨by simp, fun _ _ => h.cancelled_of_running ht hm⟩ }

/-- What is due is taken in hand. -/
theorem found {next : Option Time} (h : Lawful s) (ht : s.task = .running (.waiting next)) :
    Lawful { s with
      deliverer := ⟨(s.deliverer.pending.popDue s.now).1, s.deliverer.notified⟩
      task := .running (.handing ((s.deliverer.pending.dueBy s.now).map Prod.snd))
      log := .found (s.deliverer.pending.dueBy s.now) s.now :: s.log } := by
  have hfree : s.inHand = [] := by simp only [inHand, ht]
  have hh := h.handing
  rw [hfree, List.map_nil, List.append_nil] at hh
  exact {
    paired := h.paired.popDue s.now
    deadlines := by
      intro key
      dsimp only
      rw [Pending.deadline?_popDue, Deed.earliest_found, h.deadlines key]
    begun := h.begun
    made := fun key c hc => h.made key c (Deed.mem_batch_found hc)
    untouched := by simp
    punctual := fun _ _ key c hc => h.punctual _ ht key c (Deed.mem_batch_found hc)
    timer := by simp
    handing := by simp [Deed.handovers, Deed.findings, inHand, hh]
    batches := by
      intro key hk
      dsimp only [inHand] at hk
      rw [Deed.batch_found, if_neg hk]
      exact h.batches_of_free hfree key
    cancelled := fun _ hm => ⟨by simp, fun _ _ => h.cancelled_of_delivered ht rfl hm⟩
    told := by
      refine h.told_of_delivered ht rfl ?_
      intro due time he
      cases he
      exact h.timely ht }

/-- The first key in hand is handed over. -/
theorem handed {key : K} {rest : List K} (h : Lawful s)
    (ht : s.task = .running (.handing (key :: rest))) :
    Lawful { s with task := .running (.handing rest), log := .handed key s.now :: s.log } := by
  have hh := h.handing
  have hb := h.batches
  simp only [inHand, ht] at hh hb
  exact { h with
    untouched := by simp
    punctual := fun _ _ => h.punctual _ ht
    timer := by simp
    handing := by simpa [Deed.handovers, Deed.findings, inHand] using hh
    batches := by
      intro k hk
      by_cases he : key = k
      · -- what came while the key was in hand is all that is left to deliver
        simp [he, Deed.batch]
      · simpa [he, Deed.batch] using hb k (List.not_mem_cons_of_ne_of_not_mem (Ne.symm he) hk)
    cancelled := fun _ hm => ⟨by simp, fun _ _ => h.cancelled_of_delivered ht rfl hm⟩
    told := h.told_of_delivered ht rfl (by simp) }

theorem looped {t : Delivery K} (h : Lawful s) (hl : Looped s t) : Lawful t := by
  cases hl with
  | idle => exact h
  | armed ht =>
    have hnone : s.inHand = [] := by simp only [inHand, ht]
    exact h.turned ht hnone (by simp) fun next he => Or.inr (by cases he; rfl)
  | noticed ht =>
    have hnone : s.inHand = [] := by simp only [inHand, ht]
    exact h.turned ht hnone (by simp) (by simp)
  | drained ht =>
    have hnone : s.inHand = [] := by simp only [inHand, ht]
    exact h.turned ht hnone (by simp) (by simp)
  | found ht => exact h.found ht
  | handed ht => exact h.handed ht

theorem cancel (h : Lawful s) : Lawful (s.step .cancel) := by
  cases ht : s.task with
  | absent =>
    simp only [step, ht]
    exact h
  | ended =>
    simp only [step, ht]
    exact h
  | running loop =>
    have hh := h.handing
    have hb := h.batches
    simp only [inHand, ht] at hh hb
    simp only [step, ht]
    exact { h with
      untouched := by simp
      punctual := fun _ _ => h.punctual loop ht
      timer := by
        intro next hn
        cases hn
        exact h.timer next ht
      handing := hh
      batches := hb
      cancelled := by
        intro time hm
        refine ⟨by simp, fun _ _ => ⟨rfl, ?_⟩⟩
        rcases List.mem_cons.mp hm with he | hm
        · cases he
          rfl
        · exact (h.cancelled_of_running ht hm).2
      told := h.told.quiet rfl }

theorem stop (h : Lawful s) : Lawful (s.step .stop) := by
  simp only [step]
  split
  · rename_i next ht
    split
    · have hh := h.handing
      simp only [inHand, ht] at hh
      exact { h with
        untouched := by simp
        punctual := by simp
        timer := by simp
        handing := hh
        batches := fun key _ => h.batches_of_free (by simp only [inHand, ht]) key
        cancelled := by simp }
    · exact h
  · exact h

/-- The loop rests only while it waits, and only if nothing is due yet. -/
theorem rested {loop : DeliveryLoop K} (h : Lawful s) (ht : s.task = .running loop)
    (hr : s.atRest = true) : s.cancelled = false ∧
      loop = .waiting s.deliverer.pending.nextDeadline ∧ s.deliverer.notified = false ∧
        ∀ key time, s.deliverer.pending.deadline? key = some time → s.now < time := by
  simp only [atRest, ht, Bool.and_eq_true, Bool.not_eq_true'] at hr
  obtain ⟨hc, hready⟩ := hr
  cases loop with
  | arming => cases hready
  | handing keys => cases hready
  | waiting next =>
    obtain ⟨hn, hany⟩ := Bool.or_eq_false_iff.mp hready
    have hnext : next = s.deliverer.pending.nextDeadline :=
      (h.timer next ht).resolve_left (by simp [hn])
    subst hnext
    refine ⟨hc, rfl, hn, fun key time hd => ?_⟩
    obtain ⟨first, hf, hle⟩ := Pending.nextDeadline_le h.paired hd
    rw [hf] at hany
    exact Nat.lt_of_lt_of_le (Nat.lt_of_not_le (by simpa using hany)) hle

/-- Time that passes passes no call by. -/
theorem pass (h : Lawful s) (span : Span) : Lawful (s.step (.pass span)) := by
  simp only [step]
  split
  · rename_i hp
    obtain ⟨hr, halarm⟩ := Bool.and_eq_true_iff.mp hp
    have hle : s.now ≤ s.now + span := Nat.le_add_right _ _
    exact { h with
      begun := Nat.le_trans h.begun hle
      made := fun key c hc => Nat.le_trans (h.made key c hc) hle
      punctual := by
        intro loop hrun key c hc
        have ht : s.task = .running loop := hrun
        obtain ⟨-, rfl, -, -⟩ := h.rested ht hr
        obtain ⟨deadline, he, hdeadline⟩ := Deed.earliest_le hc
        rw [← h.deadlines] at he
        obtain ⟨next, hn, hnext⟩ := Pending.nextDeadline_le h.paired he
        have hspan : s.now + span ≤ next := by
          simpa [alarm?, ht, DeliveryLoop.alarm, hn] using halarm
        exact Nat.le_trans hspan (Nat.le_trans hnext (Nat.le_trans hdeadline (Nat.le_max_left _ _)))
      handing := by
        have hnone : s.inHand = [] := by
          cases ht : s.task with
          | absent => simp only [inHand, ht]
          | ended => simp only [inHand, ht]
          | running loop =>
            obtain ⟨-, rfl, -, -⟩ := h.rested ht hr
            simp only [inHand, ht]
        have hh := h.handing
        rw [hnone] at hh
        rw [show ({ s with now := s.now + span } : Delivery K).inHand = [] from hnone]
        exact hh
      cancelled := by
        intro time hm
        refine ⟨(h.cancelled time hm).1, fun loop ht => ?_⟩
        have hc := (h.rested ht hr).1
        rw [(h.cancelled_of_running ht hm).1] at hc
        cases hc }
  · exact h

theorem step (h : Lawful s) (e : DeliveryEvent K) : Lawful (s.step e) := by
  cases e with
  | ask call => exact h.ask call
  | start => exact h.start
  | go => exact h.looped (looped_step_go s)
  | fire => exact h.looped (looped_step_fire s)
  | cancel => exact h.cancel
  | stop => exact h.stop
  | pass span => exact h.pass span

theorem run (h : Lawful s) (events : List (DeliveryEvent K)) : Lawful (s.run events) := by
  induction events generalizing s with
  | nil => exact h
  | cons e rest ih => exact ih (h.step e)

end Lawful

end FedTrack.Delivery
