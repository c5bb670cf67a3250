import FedTrack.Proofs.Work.WorkerLaw
import FedTrack.Status.Controller

namespace FedTrack

/-- A sweep over all keys: when it was made, whether everything was synced then, and the keys. -/
structure Sweep where
  time : Time
  synced : Bool
  keys : List Name
  deriving DecidableEq

/-- A status controller with its two delivery loops, in sources that others change, and the sweeps
that were made, the latest first. The loops' clocks show the same time. -/
structure Patrol where
  resource : Resource
  timing : StatusTiming
  sources : StatusSources
  sweeps : Delivery String
  shop : Workshop
  past : List Sweep

/-- What can happen until the controller is cancelled. -/
inductive PatrolEvent
  | available
  | unavailable
  /-- A sweep is asked for from outside. -/
  | sweep
  | observe (s : StatusSources)
  | start
  /-- The loop of the sweeps goes on, and looks at a notice first. -/
  | go
  /-- The loop of the sweeps looks at its timer first. -/
  | fire
  /-- Something happens at the worker. -/
  | shop (e : WorkshopEvent)
  | pass (span : Span)

/-- How long after a call that reports a change of a cluster a sweep follows at the latest. -/
def PatrolEvent.delay? (timing : StatusTiming) : PatrolEvent → Option Span
  | .available => some timing.availableDelay
  | .unavailable => some timing.unavailableDelay
  | _ => none

namespace Patrol

open StatusController (allClusters)

def new (resource : Resource) (timing : StatusTiming) (maxConcurrent : Nat)
    (sources : StatusSources) : Patrol :=
  ⟨resource, timing, sources, .new,
    .new (StatusController.new resource timing maxConcurrent).worker, []⟩

def controller (p : Patrol) : StatusController :=
  ⟨p.resource, p.timing, p.shop.worker, p.sweeps.deliverer⟩

def now (p : Patrol) : Time := p.sweeps.now

/-- The controller after a call, and the deliveries that the call has asked for. -/
def withController (p : Patrol) (c : StatusController) (sweeps : List (Deed String))
    (keys : List (Deed Name)) : Patrol :=
  { p with
    sweeps := { p.sweeps with deliverer := c.sweeps, log := sweeps ++ p.sweeps.log }
    shop := { p.shop with worker := c.worker, log := keys ++ p.shop.log } }

/-- A deadline that is asked for now. -/
def after (p : Patrol) (delay : Span) : Asked := ⟨p.now + delay, p.now⟩

/-- A sweep asks for the delivery of each key, and for another sweep if need be. -/
def sweepNow (p : Patrol) : Patrol :=
  { p.withController (p.controller.sweep p.sources p.now)
      (if p.sources.areSynced then [] else [.asked allClusters (p.after p.timing.availableDelay)])
      (p.sources.federated.keys.reverse.map fun key => .asked key (p.after p.timing.smallDelay)) with
    past := ⟨p.now, p.sources.areSynced, p.sources.federated.keys⟩ :: p.past }

def step (p : Patrol) : PatrolEvent → Patrol
  | .available => p.withController (p.controller.clusterAvailable p.now)
      [.asked allClusters (p.after p.timing.availableDelay)] []
  | .unavailable => p.withController (p.controller.clusterUnavailable p.now)
      [.asked allClusters (p.after p.timing.unavailableDelay)] []
  | .sweep => p.sweepNow
  | .observe s => { p with sources := s }
  | .start => { p with sweeps := p.sweeps.step .start, shop := p.shop.step .start }
  | .go =>
    match p.sweeps.handed? with
    | some _ => sweepNow { p with sweeps := p.sweeps.step .go }
    | none => { p with sweeps := p.sweeps.step .go }
  | .fire => { p with sweeps := p.sweeps.step .fire }
  | .shop e => if e.inner then { p with shop := p.shop.step e } else p
  | .pass span =>
    -- time passes for both loops or for none
    let sweeps := p.sweeps.step (.pass span)
    let shop := p.shop.step (.pass span)
    if sweeps.now = p.now + span ∧ shop.now = p.now + span then
      { p with sweeps := sweeps, shop := shop }
    else p

def run (p : Patrol) (events : List PatrolEvent) : Patrol := events.foldl step p

theorem run_append (p : Patrol) (a b : List PatrolEvent) : p.run (a ++ b) = (p.run a).run b :=
  List.foldl_append

/-! What the calls come to at the two loops. -/

section
variable (p : Patrol)

/-- A call that reports a change of a cluster asks for a sweep. -/
theorem step_of_delay {e : PatrolEvent} {delay : Span} (h : e.delay? p.timing = some delay) :
    p.step e = { p with sweeps := p.sweeps.step (.ask (.after allClusters delay)) } := by
  cases e with
  | available =>
    cases h
    rfl
  | unavailable =>
    cases h
    rfl
  | _ => cases h

theorem controller_sweepNow :
    p.sweepNow.controller = p.controller.sweep p.sources p.now := by
  unfold sweepNow withController StatusController.sweep controller
  cases p.sources.areSynced with
  | true => rfl
  | false => rfl

theorem sweeps_sweepNow : p.sweepNow.sweeps = if p.sources.areSynced then p.sweeps
    else p.sweeps.step (.ask (.after allClusters p.timing.availableDelay)) := by
  unfold sweepNow withController StatusController.sweep controller
  cases p.sources.areSynced with
  | true => rfl
  | false => rfl

theorem shop_sweepNow (hclocks : p.shop.now = p.now) : p.sweepNow.shop =
    p.shop.run (p.sources.federated.keys.map fun key => .enqueue key (.after p.timing.smallDelay)) := by
  rw [Workshop.run_enqueue]
  unfold sweepNow withController StatusController.sweep controller after
  rw [← hclocks]
  cases p.sources.areSynced with
  | true => rfl
  | false => rfl

end

/-- What an event can do. -/
inductive Moved (p : Patrol) : Patrol → Prop
  | observed (s : StatusSources) : Moved p { p with sources := s }
  | asked (delay : Span) :
      Moved p { p with sweeps := p.sweeps.step (.ask (.after allClusters delay)) }
  | started : Moved p { p with sweeps := p.sweeps.step .start, shop := p.shop.step .start }
  /-- The loop of the sweeps goes on without a sweep. -/
  | looped {d : Delivery String} (hl : Delivery.Looped p.sweeps d)
      (hw : ∀ c, p.sweeps.Waits allClusters c → d.Waits allClusters c) :
      Moved p { p with sweeps := d }
  | swept {d : Delivery String} (hl : Delivery.Looped p.sweeps d) :
      Moved p (sweepNow { p with sweeps := d })
  | worked {e : WorkshopEvent} (he : e.inner = true) : Moved p { p with shop := p.shop.step e }
  | passed {span : Span} (hsweeps : (p.sweeps.step (.pass span)).now = p.now + span)
      (hshop : (p.shop.step (.pass span)).now = p.now + span) :
      Moved p { p with
        sweeps := p.sweeps.step (.pass span)
        shop := p.shop.step (.pass span) }

theorem moved (p : Patrol) (e : PatrolEvent) : Moved p (p.step e) := by
  cases e with
  | available => exact .asked p.timing.availableDelay
  | unavailable => exact .asked p.timing.unavailableDelay
  | sweep => exact .swept .idle
  | observe s => exact .observed s
  | start => exact .started
  | go =>
    have hl := p.sweeps.looped_step_go
    unfold step
    dsimp only
    split
    · exact .swept hl
    · rename_i hnone
      rw [Delivery.handed?_eq] at hnone
      refine .looped hl fun c hw => (hw.looped hl).resolve_right ?_
      rw [hnone]
      exact nofun
  | fire => exact .looped p.sweeps.looped_step_fire fun c hw => hw.fire
  | shop e =>
    unfold step
    dsimp only
    split
    · rename_i he
      exact .worked he
    · exact .observed p.sources
  | pass span =>
    unfold step
    dsimp only
    split
    · rename_i hpass
      exact .passed hpass.1 hpass.2
    · exact .observed p.sources

/-- Whatever happens, the worker goes on in its own events. -/
theorem Moved.shop {p q : Patrol} (h : Moved p q) (hclocks : p.shop.now = p.now) :
    ∃ events, q.shop = p.shop.run events := by
  cases h with
  | observed s => exact ⟨[], rfl⟩
  | asked delay => exact ⟨[], rfl⟩
  | started => exact ⟨[.start], rfl⟩
  | looped hl hw => exact ⟨[], rfl⟩
  | swept hl => exact ⟨_, shop_sweepNow _ (hclocks.trans hl.now.symm)⟩
  | worked he => exact ⟨[_], rfl⟩
  | passed hsweeps hshop => exact ⟨[.pass _], rfl⟩

/-- What holds of a controller at any time. -/
structure Sound (p : Patrol) : Prop where
  lawful : p.sweeps.Lawful
  cancelled : p.sweeps.cancelled = false
  lasting : p.sweeps.task ≠ .ended
  fit : p.shop.Fit
  clocks : p.shop.now = p.now

namespace Sound

variable {p q : Patrol}

theorem new (resource : Resource) (timing : StatusTiming) (maxConcurrent : Nat)
    (sources : StatusSources) : Sound (new resource timing maxConcurrent sources) where
  lawful := .new
  cancelled := rfl
  lasting := nofun
  fit := .new _ _ _
  clocks := rfl

theorem looped (h : Sound p) {d : Delivery String} (hl : Delivery.Looped p.sweeps d) :
    Sound { p with sweeps := d } where
  lawful := h.lawful.looped hl
  cancelled := hl.cancelled.trans h.cancelled
  lasting := by
    rcases hl.task with ht | ⟨loop, ht⟩
    · exact ht ▸ h.lasting
    · exact ht ▸ nofun
  fit := h.fit
  clocks := h.clocks.trans hl.now.symm

theorem swept (h : Sound p) : Sound p.sweepNow where
  lawful := by
    rw [sweeps_sweepNow]
    split
    · exact h.lawful
    · exact h.lawful.ask _
  cancelled := h.cancelled
  lasting := h.lasting
  fit := by
    rw [shop_sweepNow p h.clocks]
    exact h.fit.run _
  clocks := h.clocks

theorem started (h : Sound p) : Sound (p.step .start) := by
  have hsweeps : (p.sweeps.step .start).cancelled = p.sweeps.cancelled ∧
      (p.sweeps.step .start).now = p.sweeps.now ∧ (p.sweeps.step .start).task ≠ .ended := by
    have hlasting := h.lasting
    cases ht : p.sweeps.task with
    | ended => exact absurd ht hlasting
    | _ => simp [Delivery.step, ht]
  have hshop : (p.shop.step .start).now = p.shop.now := by
    simp only [Workshop.step]
    split
    · rename_i ht
      simp [Workshop.follow, Workshop.delivery, Delivery.step, ht]
    · rfl
  obtain ⟨hcancelled, hnow, hlasting⟩ := hsweeps
  exact ⟨h.lawful.start, hcancelled.trans h.cancelled, hlasting, h.fit.start,
    (hshop.trans h.clocks).trans hnow.symm⟩

theorem moved (h : Sound p) (hm : Moved p q) : Sound q := by
  cases hm with
  | observed s => exact ⟨h.lawful, h.cancelled, h.lasting, h.fit, h.clocks⟩
  | asked delay => exact ⟨h.lawful.ask _, h.cancelled, h.lasting, h.fit, h.clocks⟩
  | started => exact h.started
  | looped hl hw => exact h.looped hl
  | swept hl => exact (h.looped hl).swept
  | worked he =>
    exact ⟨h.lawful, h.cancelled, h.lasting, h.fit.step _,
      (Workshop.now_step he).trans h.clocks⟩
  | @passed span hsweeps hshop =>
    have hkept : (p.sweeps.step (.pass span)).cancelled = p.sweeps.cancelled ∧
        (p.sweeps.step (.pass span)).task = p.sweeps.task := by
      simp only [Delivery.step]
      split <;> exact ⟨rfl, rfl⟩
    obtain ⟨hcancelled, htask⟩ := hkept
    exact ⟨h.lawful.pass span, hcancelled.trans h.cancelled, htask ▸ h.lasting, h.fit.pass span,
      hshop.trans hsweeps.symm⟩

theorem step (h : Sound p) (e : PatrolEvent) : Sound (p.step e) := h.moved (p.moved e)

theorem run (h : Sound p) (events : List PatrolEvent) : Sound (p.run events) := by
  induction events generalizing p with
  | nil => exact h
  | cons e rest ih => exact ih (h.step e)

/-- What each event keeps, a run keeps. -/
theorem run_induction {motive : Patrol → Prop} (hs : Sound p) (h : motive p)
    (hkeeps : ∀ q r, Sound q → Moved q r → motive q → motive r) (events : List PatrolEvent) :
    motive (p.run events) := by
  induction events generalizing p with
  | nil => exact h
  | cons e rest ih => exact ih (hs.step e) (hkeeps p (p.step e) hs (p.moved e) h)

end Sound

/-- Both loops have begun. -/
structure Running (p : Patrol) : Prop where
  sweeps : ∃ loop, p.sweeps.task = .running loop
  shop : ∃ loop, p.shop.task = .running loop

namespace Running

variable {p q : Patrol}

theorem start (h : Sound p) : Running (p.step .start) where
  sweeps := by
    have hlasting := h.lasting
    cases ht : p.sweeps.task with
    | ended => exact absurd ht hlasting
    | _ => simp [Patrol.step, Delivery.step, ht]
  shop := by
    have hlasting := h.fit.lasting
    cases ht : p.shop.task with
    | ended => exact absurd ht hlasting
    | _ => simp [Patrol.step, Workshop.step, Workshop.follow, Workshop.delivery, Delivery.step, ht]

theorem looped (h : Running p) {d : Delivery String} (hl : Delivery.Looped p.sweeps d) :
    ∃ loop, d.task = .running loop := by
  rcases hl.task with ht | ht
  · obtain ⟨loop, hrun⟩ := h.sweeps
    exact ⟨loop, ht.trans hrun⟩
  · exact ht

theorem moved (h : Running p) (hs : Sound p) (hm : Moved p q) : Running q := by
  obtain ⟨loop, hsweeps⟩ := h.sweeps
  obtain ⟨events, hshop⟩ := hm.shop hs.clocks
  refine ⟨?_, hshop ▸ Workshop.running_run h.shop events⟩
  cases hm with
  | observed s => exact h.sweeps
  | asked delay => exact h.sweeps
  | started =>
    refine ⟨loop, ?_⟩
    simp only [Delivery.step, hsweeps]
  | looped hl hw => exact h.looped hl
  | swept hl =>
    have hrun := h.looped hl
    rw [sweeps_sweepNow]
    split <;> exact hrun
  | worked he => exact h.sweeps
  | passed hp hp' =>
    refine ⟨loop, ?_⟩
    simp only [Delivery.step]
    split <;> exact hsweeps

theorem run (h : Running p) (hs : Sound p) (events : List PatrolEvent) : Running (p.run events) :=
  hs.run_induction h (fun _ _ hq hm hr => hr.moved hq hm) events

/-- A controller that has been started goes on. -/
theorem of_start (hs : Sound p) {events : List PatrolEvent} (he : .start ∈ events) :
    Running (p.run events) := by
  induction events generalizing p with
  | nil => cases he
  | cons e rest ih =>
    rcases List.mem_cons.mp he with rfl | he
    · exact (start hs).run (hs.step .start) rest
    · exact ih (hs.step e) he

end Running

theorem Moved.timing {p q : Patrol} (h : Moved p q) : q.timing = p.timing := by
  cases h <;> rfl

theorem Sound.timing_run {p : Patrol} (hs : Sound p) (events : List PatrolEvent) :
    (p.run events).timing = p.timing :=
  hs.run_induction (motive := fun q => q.timing = p.timing) rfl
    (fun _ _ _ hm hq => hm.timing.trans hq) events

end Patrol

end FedTrack
