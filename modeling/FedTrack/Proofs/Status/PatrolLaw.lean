import FedTrack.Proofs.Status.Patrol

namespace FedTrack

theorem Deed.mem_batch_append {K : Type} [Key K] {key : K} {keys : List K} (h : key ∈ keys)
    (c : Asked) (log : List (Deed K)) : c ∈ batch key (keys.map (.asked · c) ++ log) := by
  induction keys with
  | nil => cases h
  | cons k rest ih =>
    rw [List.map_cons, List.cons_append, batch_asked]
    by_cases hk : k = key
    · rw [if_pos hk]
      exact List.mem_cons_self
    · rw [if_neg hk]
      exact ih ((List.mem_cons.mp h).resolve_left fun he => hk he.symm)

namespace Workshop

variable {s : Workshop} {key : Name} {keys : List Name} {delay : Span}

theorem mem_batch_enqueued (s : Workshop) (h : key ∈ keys) (delay : Span) :
    (⟨s.now + delay, s.now⟩ : Asked) ∈
      Deed.batch key (s.run (keys.map fun key => .enqueue key (.after delay))).log := by
  rw [run_enqueue]
  exact Deed.mem_batch_append (List.mem_reverse.mpr h) _ _

/-- Keys that are enqueued together are all pending, none of them for longer than the delay. -/
theorem pending_enqueued (hf : Fit s) (h : key ∈ keys) (delay : Span) : ∃ deadline,
    (s.run (keys.map fun key => .enqueue key (.after delay))).worker.deliverer.pending.deadline?
      key = some deadline ∧ deadline ≤ s.now + delay := by
  obtain ⟨deadline, he, hle⟩ := Deed.earliest_le (s.mem_batch_enqueued h delay)
  have hlawful := (hf.run (keys.map fun key => .enqueue key (.after delay))).lawful
  exact ⟨deadline, (hlawful.deadlines key).trans he, hle⟩

theorem promised_enqueued (hf : Fit s) (hrun : ∃ loop, s.task = .running loop) (h : key ∈ keys)
    (delay : Span) {t : Workshop}
    (ht : s.run (keys.map fun key => .enqueue key (.after delay)) = t) :
    Promised t key ⟨s.now + delay, s.now⟩ t.history := by
  have hbatch := s.mem_batch_enqueued h delay
  have hlawful := (hf.run (keys.map fun key => .enqueue key (.after delay))).lawful
  have hnow : (s.run (keys.map fun key => .enqueue key (.after delay))).now = s.now := by
    rw [run_enqueue]
  have hrunning := running_run hrun (keys.map fun key => .enqueue key (.after delay))
  rw [ht] at hbatch hlawful hnow hrunning
  refine ⟨[], rfl, Or.inl ⟨hrunning, ?_, Nat.le_of_eq hnow.symm, ?_, Or.inl hbatch⟩⟩
  · have hbegun : t.begun ≤ t.now := hlawful.begun
    rw [hnow] at hbegun
    exact hbegun
  · have hle : t.now ≤ s.now + delay := hnow ▸ Nat.le_add_right _ _
    exact Nat.le_trans hle (Nat.le_max_left _ _)

end Workshop

namespace Patrol

open StatusController (allClusters)

variable {p q : Patrol} {c : Asked} {before : List Sweep}

/-- After what was before, a sweep was made within a span of time. -/
def SweptSince (p : Patrol) (before : List Sweep) (made due : Time) : Prop :=
  ∃ later, p.past = later ++ before ∧ ∃ s ∈ later, made ≤ s.time ∧ s.time ≤ due

/-- A sweep within a span of time was made, or the span is not over and the loops go on to make it
by themselves. -/
def Followed (p : Patrol) (before : List Sweep) (made due : Time) : Prop :=
  SweptSince p before made due ∨
    p.now ≤ due ∧ ∃ more : List PatrolEvent,
      (∀ e ∈ more, e = .go ∨ e = .shop .deliver ∨ e = .pass 1) ∧
        SweptSince (p.run more) before made due

/-- A sweep that was asked for is awaited, or it was made in time. -/
def Pledged (p : Patrol) (c : Asked) (before : List Sweep) : Prop :=
  (∃ later, p.past = later ++ before) ∧ p.sweeps.Awaits allClusters c ∨
    SweptSince p before c.made (max c.deadline c.made)

theorem SweptSince.of_past {made due : Time} {later : List Sweep} (h : SweptSince p before made due)
    (hp : q.past = later ++ p.past) : SweptSince q before made due := by
  obtain ⟨since, hpast, s, hs, hspan⟩ := h
  exact ⟨later ++ since, by rw [hp, hpast, List.append_assoc], s, List.mem_append_right _ hs, hspan⟩

/-- Sweeps that were made stay on record. -/
theorem Moved.past (h : Moved p q) : ∃ later, q.past = later ++ p.past := by
  cases h with
  | swept hl => exact ⟨[_], rfl⟩
  | _ => exact ⟨[], rfl⟩

namespace Pledged

/-- Whatever happens, a sweep that is awaited is still awaited, or it is made. -/
theorem awaits_moved (h : p.sweeps.Awaits allClusters c) (hs : Sound p) (hm : Moved p q) :
    q.sweeps.Awaits allClusters c ∨ ∃ s, q.past = s :: p.past ∧ s.time = p.now := by
  cases hm with
  | observed s => exact Or.inl h
  | asked delay => exact Or.inl (h.ask _)
  | started =>
    obtain ⟨loop, ht⟩ := h.running
    have hsame : p.sweeps.step .start = p.sweeps := by simp only [Delivery.step, ht]
    left
    show (p.sweeps.step .start).Awaits allClusters c
    rw [hsame]
    exact h
  | looped hl hw => exact Or.inl (h.looped hl (hw c h.waits))
  | swept hl => exact Or.inr ⟨_, rfl, hl.now⟩
  | worked he => exact Or.inl h
  | passed hsweeps hshop => exact Or.inl (h.pass hs.lawful _)

theorem moved (h : Pledged p c before) (hs : Sound p) (hm : Moved p q) : Pledged q c before := by
  obtain ⟨later, hpast⟩ := hm.past
  rcases h with ⟨⟨since, hsince⟩, ha⟩ | hswept
  · rcases awaits_moved ha hs hm with ha' | ⟨s, hs', htime⟩
    · exact Or.inl ⟨⟨later ++ since, by rw [hpast, hsince, List.append_assoc]⟩, ha'⟩
    · refine Or.inr ⟨s :: since, by rw [hs', hsince, List.cons_append], s, List.mem_cons_self, ?_⟩
      rw [htime]
      exact ⟨ha.made, ha.now_le⟩
  · exact Or.inr (hswept.of_past hpast)

theorem run (h : Pledged p c before) (hs : Sound p) (events : List PatrolEvent) :
    Pledged (p.run events) c before :=
  hs.run_induction (motive := fun q => Pledged q c before) h
    (fun _ _ hq hm hpledged => hpledged.moved hq hm) events

end Pledged

/-! The loops make by themselves what is awaited. -/

/-- The loop of the sweeps goes on as by itself, or it makes a sweep. -/
theorem goes_on (hs : Sound p) {events : List (DeliveryEvent String)}
    (he : ∀ e ∈ events, e = .go ∨ e = .stop) : ∃ more : List PatrolEvent, (∀ e ∈ more, e = .go) ∧
      (p.run more = { p with sweeps := p.sweeps.run events } ∨
        ∃ s, (p.run more).past = s :: p.past ∧ s.time = p.now) := by
  induction events generalizing p with
  | nil => exact ⟨[], nofun, Or.inl rfl⟩
  | cons e rest ih =>
    have hrest : ∀ e ∈ rest, e = .go ∨ e = .stop := fun e hm => he e (List.mem_cons_of_mem _ hm)
    rcases he e List.mem_cons_self with rfl | rfl
    · have hl := p.sweeps.looped_step_go
      cases hh : p.sweeps.handed? with
      | some key =>
        have hstep : p.step .go = sweepNow { p with sweeps := p.sweeps.step .go } := by
          simp only [step, hh]
        refine ⟨[.go], fun e hm => List.mem_singleton.mp hm,
          Or.inr ⟨⟨_, p.sources.areSynced, p.sources.federated.keys⟩, ?_, hl.now⟩⟩
        show (p.step .go).past = _
        rw [hstep]
        rfl
      | none =>
        have hstep : p.step .go = { p with sweeps := p.sweeps.step .go } := by
          simp only [step, hh]
        obtain ⟨more, hall, hmore⟩ := ih (hs.looped hl) hrest
        rw [← hstep] at hmore
        refine ⟨.go :: more, List.forall_mem_cons.mpr ⟨rfl, hall⟩, hmore.imp (fun h => ?_) ?_⟩
        · exact h.trans (by rw [hstep]; rfl)
        · rintro ⟨s, hpast, htime⟩
          refine ⟨s, hpast.trans (by rw [hstep]), htime.trans ?_⟩
          rw [hstep]
          exact hl.now
    · -- nothing has been cancelled, so the loop does not stop
      have hstop : p.sweeps.step .stop = p.sweeps := by
        simp only [Delivery.step, hs.cancelled]
        split <;> rfl
      obtain ⟨more, hall, hmore⟩ := ih hs hrest
      refine ⟨more, hall, hmore.imp_left fun h => h.trans ?_⟩
      simp only [Delivery.run, List.foldl_cons, hstop]

theorem run_shop (p : Patrol) {events : List WorkshopEvent} (he : ∀ e ∈ events, e.inner = true) :
    p.run (events.map .shop) = { p with shop := p.shop.run events } := by
  induction events generalizing p with
  | nil => rfl
  | cons e rest ih =>
    have hstep : p.step (.shop e) = { p with shop := p.shop.step e } := by
      simp only [step, he e List.mem_cons_self, if_true]
    have hrest := ih (p.step (.shop e)) fun e hm => he e (List.mem_cons_of_mem _ hm)
    refine hrest.trans ?_
    rw [hstep]
    rfl

/-- At rest a moment passes for both loops. -/
theorem now_pass_one (hs : Sound p) (hsweeps : p.sweeps.atRest = true)
    (hshop : p.shop.delivery.atRest = true) : (p.step (.pass 1)).now = p.now + 1 := by
  have hnow : (p.sweeps.step (.pass 1)).now = p.now + 1 :=
    Delivery.step_pass_one hs.lawful hsweeps
  have hnow' : (p.shop.step (.pass 1)).now = p.now + 1 := by
    have hd := Delivery.step_pass_one hs.fit.lawful hshop
    rw [← Workshop.delivery_pass] at hd
    exact hd.trans (congrArg (· + 1) hs.clocks)
  simp only [step, hnow, hnow', and_self, if_true]
  exact hnow

/-- The loops by themselves let a moment pass or make a sweep. -/
theorem moment_or_sweep (hs : Sound p) : ∃ more : List PatrolEvent,
    (∀ e ∈ more, e = .go ∨ e = .shop .deliver ∨ e = .pass 1) ∧
      ((p.run more).now = p.now + 1 ∨ ∃ s, (p.run more).past = s :: p.past ∧ s.time = p.now) := by
  obtain ⟨events, hevents, hrest, hnow⟩ := Delivery.Settles.of_lawful hs.lawful
  obtain ⟨going, hgoing, hgone | hswept⟩ := goes_on hs hevents
  · -- the worker comes to rest as well
    obtain ⟨work, hwork, hrest', -⟩ := Workshop.settles hs.fit
    have hinner : ∀ e ∈ work, e.inner = true := fun e he => by rw [hwork e he]; rfl
    have hrun : p.run (going ++ work.map .shop) =
        { p with sweeps := p.sweeps.run events, shop := p.shop.run work } := by
      rw [run_append, hgone, run_shop _ hinner]
    have hs' : Sound (p.run (going ++ work.map .shop)) := hs.run _
    rw [hrun] at hs'
    refine ⟨going ++ work.map .shop ++ [.pass 1], ?_, Or.inl ?_⟩
    · intro e he
      rcases List.mem_append.mp he with he | he
      · rcases List.mem_append.mp he with he | he
        · exact Or.inl (hgoing e he)
        · obtain ⟨w, hw, rfl⟩ := List.mem_map.mp he
          rw [hwork w hw]
          exact Or.inr (Or.inl rfl)
      · exact Or.inr (Or.inr (List.mem_singleton.mp he))
    · rw [run_append, hrun]
      exact (now_pass_one hs' hrest hrest').trans (congrArg (· + 1) hnow)
  · exact ⟨going, fun e he => Or.inl (hgoing e he), Or.inr hswept⟩

/-- While a sweep is awaited the loops by themselves make it, or they let a moment pass. -/
theorem moment_or_swept (hs : Sound p) (ha : p.sweeps.Awaits allClusters c) :
    ∃ more : List PatrolEvent, (∀ e ∈ more, e = .go ∨ e = .shop .deliver ∨ e = .pass 1) ∧
      (SweptSince (p.run more) p.past c.made (max c.deadline c.made) ∨
        (∃ since, (p.run more).past = since ++ p.past) ∧
          (p.run more).sweeps.Awaits allClusters c ∧ (p.run more).now = p.now + 1) := by
  obtain ⟨more, hmore, hnow | ⟨s, hpast, htime⟩⟩ := moment_or_sweep hs
  · have hpledged : Pledged p c p.past := Or.inl ⟨⟨[], rfl⟩, ha⟩
    refine ⟨more, hmore, ?_⟩
    rcases hpledged.run hs more with ⟨hpast, ha'⟩ | hswept
    · exact Or.inr ⟨hpast, ha', hnow⟩
    · exact Or.inl hswept
  · exact ⟨more, hmore, Or.inl ⟨[s], hpast, s, List.mem_cons_self, htime ▸ ⟨ha.made, ha.now_le⟩⟩⟩

/-- What is awaited is made in time. The induction is on the time that is left. -/
theorem sweeps_in_time (hs : Sound p) (ha : p.sweeps.Awaits allClusters c) (left : Span)
    (hleft : max c.deadline c.made ≤ p.now + left) : ∃ more : List PatrolEvent,
      (∀ e ∈ more, e = .go ∨ e = .shop .deliver ∨ e = .pass 1) ∧
        SweptSince (p.run more) p.past c.made (max c.deadline c.made) := by
  induction left generalizing p with
  | zero =>
    obtain ⟨more, hmore, hswept | ⟨-, ha', hnow⟩⟩ := moment_or_swept hs ha
    · exact ⟨more, hmore, hswept⟩
    · have hlate : p.now + 1 ≤ p.now := hnow ▸ Nat.le_trans ha'.now_le hleft
      exact absurd hlate (Nat.not_succ_le_self _)
  | succ left ih =>
    obtain ⟨more, hmore, hswept | ⟨⟨since, hsince⟩, ha', hnow⟩⟩ := moment_or_swept hs ha
    · exact ⟨more, hmore, hswept⟩
    · have hless : max c.deadline c.made ≤ (p.run more).now + left := by
        rw [hnow, Nat.add_assoc, Nat.add_comm 1 left]
        exact hleft
      obtain ⟨rest, hrest, later, hlater, s, hmem, hspan⟩ := ih (hs.run more) ha' hless
      refine ⟨more ++ rest, List.forall_mem_append.mpr ⟨hmore, hrest⟩, ?_⟩
      rw [run_append]
      refine ⟨later ++ since, ?_, s, List.mem_append_left _ hmem, hspan⟩
      rw [hlater, hsince, List.append_assoc]

theorem Pledged.followed (h : Pledged p c before) (hs : Sound p) (hc : c.made ≤ c.deadline) :
    Followed p before c.made c.deadline := by
  have hmax : max c.deadline c.made = c.deadline := Nat.max_eq_left hc
  rcases h with ⟨⟨since, hsince⟩, ha⟩ | hswept
  · right
    have hle : p.now ≤ max c.deadline c.made := ha.now_le
    have hleft : max c.deadline c.made ≤ p.now + (max c.deadline c.made - p.now) :=
      Nat.le_of_eq (Nat.add_sub_cancel' hle).symm
    obtain ⟨more, hmore, later, hlater, s, hmem, hspan⟩ := sweeps_in_time hs ha _ hleft
    rw [hmax] at hle hspan
    refine ⟨hle, more, hmore, later ++ since, ?_, s, List.mem_append_left _ hmem, hspan⟩
    rw [hlater, hsince, List.append_assoc]
  · rw [hmax] at hswept
    exact Or.inl hswept

/-! What a call and a sweep lead to. -/

theorem pledged_asked (hs : Sound p) (hr : Running p) (delay : Span)
    (hq : q = { p with sweeps := p.sweeps.step (.ask (.after allClusters delay)) }) :
    Pledged q (p.after delay) p.past := by
  obtain ⟨loop, ht⟩ := hr.sweeps
  subst hq
  exact Or.inl ⟨⟨[], rfl⟩, .of_ask hs.lawful ht allClusters delay⟩

/-- A sweep is made only by the function that sweeps. -/
theorem Moved.sweep_made (h : Moved p q) {s : Sweep} (hs : q.past = s :: p.past) :
    ∃ d, Delivery.Looped p.sweeps d ∧ q = sweepNow { p with sweeps := d } := by
  cases h with
  | swept hl => exact ⟨_, hl, rfl⟩
  | _ => exact absurd hs.symm (List.cons_ne_self _ _)

/-- What holds when a sweep has been made. -/
structure Made (p q : Patrol) (s : Sweep) : Prop where
  time : s.time = p.now
  synced : s.synced = p.sources.areSynced
  keys : s.keys = p.sources.federated.keys
  pending : ∀ key ∈ s.keys, ∃ deadline,
    q.shop.worker.deliverer.pending.deadline? key = some deadline ∧
      deadline ≤ s.time + p.timing.smallDelay
  promised : Running p → ∀ key ∈ s.keys,
    q.shop.Promised key ⟨s.time + p.timing.smallDelay, s.time⟩ q.shop.history
  again : Running p → s.synced = false →
    Pledged q ⟨s.time + p.timing.availableDelay, s.time⟩ q.past

theorem Moved.made (hm : Moved p q) (hs : Sound p) {s : Sweep} (hq : q.past = s :: p.past) :
    Made p q s := by
  obtain ⟨d, hl, rfl⟩ := hm.sweep_made hq
  obtain rfl : s = ⟨d.now, p.sources.areSynced, p.sources.federated.keys⟩ :=
    (List.cons.inj hq).1.symm
  have hd : Sound { p with sweeps := d } := hs.looped hl
  have hclocks : p.shop.now = d.now := hd.clocks
  have hshop := shop_sweepNow { p with sweeps := d } hclocks
  refine ⟨hl.now, rfl, rfl, ?_, ?_, ?_⟩
  · intro key hkey
    rw [hshop]
    obtain ⟨deadline, hdeadline, hle⟩ := Workshop.pending_enqueued hs.fit hkey p.timing.smallDelay
    rw [hclocks] at hle
    exact ⟨deadline, hdeadline, hle⟩
  · intro hr key hkey
    have hpromised :=
      Workshop.promised_enqueued hs.fit hr.shop hkey p.timing.smallDelay hshop.symm
    rw [hclocks] at hpromised
    exact hpromised
  · intro hr hunsynced
    obtain ⟨loop, ht⟩ := hr.looped hl
    have hsynced : p.sources.areSynced = false := hunsynced
    have hsweeps : (sweepNow { p with sweeps := d }).sweeps =
        d.step (.ask (.after allClusters p.timing.availableDelay)) := by
      rw [sweeps_sweepNow]
      simp only [hsynced, Bool.false_eq_true, if_false]
    have hawaits := Delivery.Awaits.of_ask hd.lawful ht allClusters p.timing.availableDelay
    rw [← hsweeps] at hawaits
    exact Or.inl ⟨⟨[], rfl⟩, hawaits⟩

theorem promised_run {key : Name} {history : List Occurrence} (hs : Sound p)
    (h : p.shop.Promised key c history) (events : List PatrolEvent) :
    (p.run events).shop.Promised key c history := by
  refine hs.run_induction (motive := fun q => q.shop.Promised key c history) h ?_ events
  intro q r hq hm hpromised
  obtain ⟨work, hwork⟩ := hm.shop hq.clocks
  exact hwork ▸ hpromised.run hq.fit work

/-- A key was delivered to the queue within a span of time, after all that was before, or the span
is not over and the key is pending or about to be handed over. -/
def DeliveredSince (s : Workshop) (key : Name) (history : List Occurrence) (made due : Time) : Prop :=
  ∃ later, s.history = later ++ history ∧
    ((∃ time, ⟨key, .delivered, time⟩ ∈ later ∧ made ≤ time ∧ time ≤ due) ∨
      s.now ≤ due ∧ ((s.worker.deliverer.pending.deadline? key).isSome = true ∨
        key ∈ s.delivery.inHand))

theorem deliveredSince_of_promised {s : Workshop} (hf : s.Fit) {key : Name}
    {history : List Occurrence} (h : s.Promised key c history) (hc : c.made ≤ c.deadline) :
    DeliveredSince s key history c.made c.deadline := by
  have hmax : max c.deadline c.made = c.deadline := Nat.max_eq_left hc
  obtain ⟨later, hlater, ha | hdelivered⟩ := h
  · have hle := ha.now_le
    rw [hmax] at hle
    exact ⟨later, hlater, Or.inr ⟨hle, ha.waits.imp_left hf.lawful.pending_of_batch⟩⟩
  · rw [hmax] at hdelivered
    exact ⟨later, hlater, Or.inl hdelivered⟩

end Patrol

end FedTrack
