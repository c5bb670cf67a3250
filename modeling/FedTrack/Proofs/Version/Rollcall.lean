import FedTrack.Proofs.Store.Landing
import FedTrack.Proofs.Version.Errand
import FedTrack.Proofs.Version.Journey
import FedTrack.Proofs.Version.Runs

namespace FedTrack

/-- The objects that a successful listing answered with. -/
def Outcome.listed? : Outcome → Option (List Object)
  | .ok (.objects listed) => some listed
  | _ => none

theorem SyncStage.answer_eq (m : VersionManager) (outcome : Outcome) (now : Time) :
    answer m outcome now = match outcome.listed? with
      | some listed => (m.load listed, .finished)
      | none => (m, .pausing (now + retryDelay)) := by
  cases outcome with
  | error e => rfl
  | ok a => cases a <;> rfl

namespace Site

/-- The site after a listing. -/
def list (x : Site) : Site := (x.call (SyncStage.call x.manager)).1

def listed? (x : Site) : Option (List Object) :=
  (x.call (SyncStage.call x.manager)).2.listed?

/-- The site after so many listings. -/
def lists (x : Site) : Nat → Site
  | 0 => x
  | n + 1 => x.list.lists n

theorem listed?_of_fault {x : Site} {f : Fault} {rest : List (Operation × Fault)}
    (h : x.store.faults = (.list, f) :: rest) :
    x.listed? = none ∧ x.list.store.faults = rest := by
  have henter : x.store.enter .list = ({ x.store with
      attempts := x.store.attempts.bump .list
      faults := rest }, some (f.toError .list)) := by
    simp only [MemoryStore.enter, h, MemoryStore.takeFault, if_true]
  have hperform : x.store.perform x.kind (SyncStage.call x.manager) = ({ x.store with
      attempts := x.store.attempts.bump .list
      faults := rest }, .error (f.toError .list)) := by
    simp only [MemoryStore.perform, SyncStage.call, Call.operation, henter]
  constructor
  · simp only [listed?, call, hperform]
    rfl
  · simp only [list, call, hperform]

/-- As many listings fail as there are faults queued for them. -/
theorem listed?_of_faults {x : Site} {f : Fault} {n : Nat}
    (h : x.store.faults = List.replicate n (.list, f)) :
    (∀ k < n, (x.lists k).listed? = none) ∧ ∃ listed, (x.lists n).listed? = some listed := by
  induction n generalizing x with
  | zero =>
    refine ⟨nofun,
      (x.store.ofKind x.kind).filter fun o => MemoryStore.inScope x.manager.scope o.name, ?_⟩
    simp only [lists, listed?, call, MemoryStore.perform_faultless h]
    rfl
  | succ n ih =>
    obtain ⟨hfailed, hrest⟩ := listed?_of_fault h
    obtain ⟨hfailing, hlast⟩ := ih hrest
    refine ⟨?_, hlast⟩
    intro k hk
    cases k with
    | zero => exact hfailed
    | succ k => exact hfailing k (Nat.lt_of_succ_lt_succ hk)

end Site

/-- A list call: when and on which site it was made, and when it was answered if it was. The store
carries it out when it is made; the answer may be long on its way. -/
structure Listing where
  began : Time
  site : Site
  answered : Option Time

namespace Listing

/-- A call that has been answered with records. One that is under way has not succeeded yet. -/
def Succeeded (c : Listing) : Prop := c.answered ≠ none ∧ c.site.listed? ≠ none

def Failed (c : Listing) : Prop := c.answered ≠ none ∧ c.site.listed? = none

/-- When and where the call was made. -/
def made (c : Listing) : Time × Site := (c.began, c.site)

end Listing

/-- A sync with its list calls, the latest first. -/
structure Rollcall where
  now : Time
  site : Site
  stands : Errand ⊕ Reply
  cancelled : Bool
  calls : List Listing

inductive RollcallEvent
  /-- Others use the store. -/
  | meddle (m : Meddling)
  | cancel
  /-- The sync makes a call, takes the answer to it, ends its pause or returns. -/
  | go
  | pass (span : Span)

namespace Rollcall

def new (x : Site) (now : Time) : Rollcall := ⟨now, x, .inl (.syncing .listing), false, []⟩

/-- While the sync can go on the clock stands still, and it does not run past the end of a pause. An
answer may take any time. -/
def limit? (s : Rollcall) : Option Time :=
  match s.stands with
  | .inl (.syncing (.pausing wake)) => if s.cancelled then some s.now else some wake
  | .inl (.syncing _) => some s.now
  | _ => none

def answer (now : Time) : List Listing → List Listing
  | c :: earlier => { c with answered := some now } :: earlier
  | [] => []

def move (s : Rollcall) (e : Errand) (calls : List Listing) : Rollcall :=
  { s with site := (e.step s.now s.site).1, stands := (e.step s.now s.site).2, calls := calls }

/-- The sync makes a call. -/
def called (s : Rollcall) : Rollcall :=
  { s with
    site := s.site.list
    stands := .inl (.loading (s.site.call (SyncStage.call s.site.manager)).2)
    calls := ⟨s.now, s.site, none⟩ :: s.calls }

/-- A cancelation counts before a call and in a pause. -/
def go (s : Rollcall) : Rollcall :=
  match s.stands with
  | .inl (.loading outcome) => s.move (.loading outcome) (answer s.now s.calls)
  | .inl e =>
    if s.cancelled then { s with stands := .inr .synced }
    else
      match e with
      | .syncing .listing => s.move e (⟨s.now, s.site, none⟩ :: s.calls)
      | e => if e.ready s.now then s.move e s.calls else s
  | .inr _ => s

def step (s : Rollcall) : RollcallEvent → Rollcall
  | .meddle m => { s with site := ⟨s.site.manager, s.site.store.meddle m⟩ }
  | .cancel => { s with cancelled := true }
  | .go => s.go
  | .pass span =>
    { s with now := (s.limit?.map fun limit => min (s.now + span) limit).getD (s.now + span) }

def run (s : Rollcall) (events : List RollcallEvent) : Rollcall := events.foldl step s

section

variable {s : Rollcall} {c : Listing} {earlier : List Listing} {outcome : Outcome}

theorem go_ended {reply : Reply} (hs : s.stands = .inr reply) : s.go = s := by
  simp only [go, hs]

theorem go_cancelled {stage : SyncStage} (hs : s.stands = .inl (.syncing stage))
    (hc : s.cancelled = true) : s.go = { s with stands := .inr .synced } := by
  simp only [go, hs, hc, if_true]

theorem go_listing (hs : s.stands = .inl (.syncing .listing)) (hc : s.cancelled = false) :
    s.go = s.called := by
  simp only [go, hs, hc, Bool.false_eq_true, if_false, called, move, Errand.step]
  rfl

/-- If the answer comes at once, a call is one step of the sync. -/
theorem go_go (hs : s.stands = .inl (.syncing .listing)) (hc : s.cancelled = false) :
    s.go.go.site = (SyncStage.step s.now s.site .listing).1 ∧
      s.go.go.stands = match (SyncStage.step s.now s.site .listing).2 with
        | .finished => .inr .synced
        | stage => .inl (.syncing stage) := by
  have hstep := Errand.step_loading s.now s.site
  rw [go_listing hs hc]
  exact ⟨congrArg Prod.fst hstep, congrArg Prod.snd hstep⟩

theorem go_pausing {wake : Time} (hs : s.stands = .inl (.syncing (.pausing wake)))
    (hc : s.cancelled = false) :
    s.go = if wake ≤ s.now then { s with stands := .inl (.syncing .listing) } else s := by
  simp only [go, hs, hc, Bool.false_eq_true, if_false, Errand.ready, decide_eq_true_eq, move,
    Errand.step]

theorem go_failed (hs : s.stands = .inl (.loading outcome)) (hcalls : s.calls = c :: earlier)
    (hlisted : outcome.listed? = none) :
    s.go = { s with
      stands := .inl (.syncing (.pausing (s.now + SyncStage.retryDelay)))
      calls := { c with answered := some s.now } :: earlier } := by
  have ha := SyncStage.answer_eq s.site.manager outcome s.now
  rw [hlisted] at ha
  simp only [go, hs, hcalls, move, answer, Errand.step, ha]

theorem go_listed {listed : List Object} (hs : s.stands = .inl (.loading outcome))
    (hcalls : s.calls = c :: earlier) (hlisted : outcome.listed? = some listed) :
    s.go = { s with
      site := ⟨s.site.manager.load listed, s.site.store⟩
      stands := .inr .synced
      calls := { c with answered := some s.now } :: earlier } := by
  have ha := SyncStage.answer_eq s.site.manager outcome s.now
  rw [hlisted] at ha
  simp only [go, hs, hcalls, move, answer, Errand.step, ha]

end

/-- When the next call is due: at once, or a second after the answer to the one before. -/
def due (began : Time) : List Listing → Option Time
  | [] => some began
  | c :: _ => c.answered.map (· + SyncStage.retryDelay)

/-- Each call is made when it is due, and only after those before it have failed. -/
def Regular (began : Time) : List Listing → Prop
  | [] => True
  | c :: earlier => due began earlier = some c.began ∧ (∀ d ∈ earlier, d.Failed) ∧
      Regular began earlier

/-- The call that has not been answered yet. -/
def underWay? (s : Rollcall) : Option Listing := s.calls.head?.filter (·.answered.isNone)

/-- What the last call has been answered with, or is going to be. -/
def lastListed? (s : Rollcall) : Option (List Object) := s.calls.head?.bind (·.site.listed?)

/-- What the calls so far have yielded. -/
def loaded? (s : Rollcall) : Option (List Object) :=
  match s.calls with
  | c :: _ => if c.answered.isSome then c.site.listed? else none
  | [] => none

section

variable {s : Rollcall}

theorem loaded?_of_failed (hfailed : ∀ c ∈ s.calls, c.Failed) : s.loaded? = none := by
  unfold loaded?
  split
  · rename_i c earlier hcalls
    rw [hcalls] at hfailed
    rw [(hfailed c List.mem_cons_self).2, ite_self]
  · rfl

theorem loaded?_of_listed {c : Listing} {earlier : List Listing} {listed : List Object}
    (hcalls : s.calls = c :: earlier) (hanswered : c.answered ≠ none)
    (hlisted : c.site.listed? = some listed) : s.loaded? = some listed := by
  simp only [loaded?, hcalls, Option.isSome_iff_ne_none.mpr hanswered, if_true, hlisted]

end

section

variable {s t : Rollcall}

theorem lastListed?_congr (h : t.calls.map Listing.made = s.calls.map Listing.made) :
    t.lastListed? = s.lastListed? := by
  have hhead := congrArg List.head? h
  rw [List.head?_map, List.head?_map] at hhead
  have hlast (s : Rollcall) :
      s.lastListed? = (s.calls.head?.map Listing.made).bind (·.2.listed?) := by
    rw [lastListed?, Option.bind_map]
    rfl
  rw [hlast t, hhead, ← hlast s]

theorem lastListed?_of_underWay {c : Listing} (h : s.underWay? = some c) :
    s.lastListed? = c.site.listed? := by
  have hhead : s.calls.head? = some c := (Option.filter_eq_some_iff.mp h).1
  rw [lastListed?, hhead, Option.bind_some]

/-- If every call has been answered and none has succeeded, there is nothing to load. -/
theorem lastListed?_of_not_succeeded (hnone : ∀ c ∈ s.calls, ¬ c.Succeeded)
    (hway : s.underWay? = none) : s.lastListed? = none := by
  refine Option.bind_eq_none_iff.mpr fun c hc => ?_
  have hanswered : c.answered ≠ none := by
    intro ha
    rw [underWay?, show s.calls.head? = some c from hc, Option.filter_some, ha] at hway
    cases hway
  exact Decidable.byContradiction fun hl => hnone c (List.mem_of_mem_head? hc) ⟨hanswered, hl⟩

end

/-- Where a sync of the manager `m` stands. -/
inductive Stands (m : VersionManager) (began : Time) : Rollcall → Prop
  | listing {s : Rollcall} (hs : s.stands = .inl (.syncing .listing)) (hm : s.site.manager = m)
      (hregular : Regular began s.calls) (hfailed : ∀ c ∈ s.calls, c.Failed)
      (hdue : due began s.calls = some s.now) : Stands m began s
  | loading {s : Rollcall} {c : Listing} {earlier : List Listing} {outcome : Outcome}
      (hs : s.stands = .inl (.loading outcome)) (hm : s.site.manager = m)
      (hcalls : s.calls = c :: earlier) (hregular : Regular began s.calls)
      (hanswered : c.answered = none) (hlisted : outcome.listed? = c.site.listed?) :
      Stands m began s
  | pausing {s : Rollcall} {wake : Time} (hs : s.stands = .inl (.syncing (.pausing wake)))
      (hm : s.site.manager = m) (hregular : Regular began s.calls)
      (hfailed : ∀ c ∈ s.calls, c.Failed) (hdue : due began s.calls = some wake)
      (hnow : s.now ≤ wake) : Stands m began s
  | loaded {s : Rollcall} {c : Listing} {earlier : List Listing} {listed : List Object}
      (hs : s.stands = .inr .synced) (hm : s.site.manager = m.load listed)
      (hcalls : s.calls = c :: earlier) (hregular : Regular began s.calls)
      (hanswered : c.answered ≠ none) (hlisted : c.site.listed? = some listed) : Stands m began s
  | stopped {s : Rollcall} (hs : s.stands = .inr .synced) (hm : s.site.manager = m)
      (hregular : Regular began s.calls) (hfailed : ∀ c ∈ s.calls, c.Failed)
      (hcancelled : s.cancelled = true) : Stands m began s

namespace Stands

variable {m : VersionManager} {began : Time} {s : Rollcall}

theorem new (x : Site) (began : Time) : Stands x.manager began (Rollcall.new x began) :=
  .listing rfl rfl trivial nofun rfl

theorem go (h : Stands m began s) : Stands m began s.go := by
  cases h with
  | listing hs hm hregular hfailed hdue =>
    cases hc : s.cancelled with
    | true =>
      rw [go_cancelled hs hc]
      exact .stopped rfl hm hregular hfailed hc
    | false =>
      rw [go_listing hs hc]
      exact .loading rfl hm rfl ⟨hdue, hfailed, hregular⟩ rfl rfl
  | @loading c earlier outcome hs hm hcalls hregular hanswered hlisted =>
    rw [hcalls] at hregular
    obtain ⟨hdue, hfailed, hearlier⟩ := hregular
    cases hl : c.site.listed? with
    | none =>
      rw [go_failed hs hcalls (hlisted.trans hl)]
      refine .pausing rfl hm ⟨hdue, hfailed, hearlier⟩ ?_ rfl (Nat.le_add_right _ _)
      exact List.forall_mem_cons.mpr ⟨⟨Option.some_ne_none _, hl⟩, hfailed⟩
    | some listed =>
      rw [go_listed hs hcalls (hlisted.trans hl), hm]
      exact .loaded rfl rfl rfl ⟨hdue, hfailed, hearlier⟩ (Option.some_ne_none _) hl
  | @pausing wake hs hm hregular hfailed hdue hnow =>
    cases hc : s.cancelled with
    | true =>
      rw [go_cancelled hs hc]
      exact .stopped rfl hm hregular hfailed hc
    | false =>
      rw [go_pausing hs hc]
      split
      · rename_i hwake
        rw [Nat.le_antisymm hwake hnow] at hdue
        exact .listing rfl hm hregular hfailed hdue
      · exact .pausing hs hm hregular hfailed hdue hnow
  | loaded hs hm hcalls hregular hanswered hlisted =>
    rw [go_ended hs]
    exact .loaded hs hm hcalls hregular hanswered hlisted
  | stopped hs hm hregular hfailed hcancelled =>
    rw [go_ended hs]
    exact .stopped hs hm hregular hfailed hcancelled

/-- What happens around a sync does not change where it stands, as long as the clock keeps to its
limit. -/
theorem around (h : Stands m began s) {t : Rollcall} (hs : t.stands = s.stands)
    (hm : t.site.manager = s.site.manager) (hcalls : t.calls = s.calls)
    (hcancelled : s.cancelled = true → t.cancelled = true)
    (hnow : ∀ limit, s.limit? = some limit → s.now ≤ limit → s.now ≤ t.now ∧ t.now ≤ limit) :
    Stands m began t := by
  obtain ⟨now, site, stands, cancelled, calls⟩ := t
  dsimp only at hs hm hcalls hcancelled hnow
  subst hs hcalls
  cases h with
  | listing hs hm' hregular hfailed hdue =>
    have hlimit : s.limit? = some s.now := by simp only [limit?, hs]
    obtain ⟨hge, hle⟩ := hnow s.now hlimit (Nat.le_refl _)
    have hsame : now = s.now := Nat.le_antisymm hle hge
    rw [← hsame] at hdue
    exact .listing hs (hm.trans hm') hregular hfailed hdue
  | loading hs hm' hcalls hregular hanswered hlisted =>
    exact .loading hs (hm.trans hm') hcalls hregular hanswered hlisted
  | @pausing wake hs hm' hregular hfailed hdue hle =>
    have hlate : now ≤ wake := by
      cases hc : s.cancelled with
      | true =>
        have hlimit : s.limit? = some s.now := by simp only [limit?, hs, hc, if_true]
        exact Nat.le_trans (hnow s.now hlimit (Nat.le_refl _)).2 hle
      | false =>
        have hlimit : s.limit? = some wake := by
          simp only [limit?, hs, hc, Bool.false_eq_true, if_false]
        exact (hnow wake hlimit hle).2
    exact .pausing hs (hm.trans hm') hregular hfailed hdue hlate
  | loaded hs hm' hcalls hregular hanswered hlisted =>
    exact .loaded hs (hm.trans hm') hcalls hregular hanswered hlisted
  | stopped hs hm' hregular hfailed hc =>
    exact .stopped hs (hm.trans hm') hregular hfailed (hcancelled hc)

theorem step (h : Stands m began s) (event : RollcallEvent) : Stands m began (s.step event) := by
  have still : ∀ limit, s.limit? = some limit → s.now ≤ limit → s.now ≤ s.now ∧ s.now ≤ limit :=
    fun _ _ hle => ⟨Nat.le_refl _, hle⟩
  cases event with
  | go => exact h.go
  | meddle x => exact h.around rfl rfl rfl id still
  | cancel => exact h.around rfl rfl rfl (fun _ => rfl) still
  | pass span =>
    refine h.around rfl rfl rfl id ?_
    intro limit hlimit hle
    simp only [Rollcall.step, hlimit, Option.map_some, Option.getD_some]
    exact ⟨Nat.le_min.mpr ⟨Nat.le_add_right _ _, hle⟩, Nat.min_le_right _ _⟩

theorem run (h : Stands m began s) (events : List RollcallEvent) :
    Stands m began (s.run events) := by
  induction events generalizing s with
  | nil => exact h
  | cons event rest ih => exact ih (h.step event)

theorem regular (h : Stands m began s) : Regular began s.calls := by
  cases h with
  | listing _ _ hregular _ _ => exact hregular
  | loading _ _ _ hregular _ _ => exact hregular
  | pausing _ _ hregular _ _ _ => exact hregular
  | loaded _ _ _ hregular _ _ => exact hregular
  | stopped _ _ hregular _ _ => exact hregular

/-- Only the result of a successful call gets into the cache. -/
theorem manager_eq (h : Stands m began s) :
    s.site.manager = s.loaded?.elim m m.load := by
  cases h with
  | listing _ hm _ hfailed _ => rw [loaded?_of_failed hfailed, hm, Option.elim_none]
  | loading _ hm hcalls _ hanswered _ =>
    have hl : s.loaded? = none := by simp [loaded?, hcalls, hanswered]
    rw [hl, hm, Option.elim_none]
  | pausing _ hm _ hfailed _ _ => rw [loaded?_of_failed hfailed, hm, Option.elim_none]
  | loaded _ hm hcalls _ hanswered hlisted =>
    rw [loaded?_of_listed hcalls hanswered hlisted, hm, Option.elim_some]
  | stopped _ hm _ hfailed _ => rw [loaded?_of_failed hfailed, hm, Option.elim_none]

/-- A sync that was not cancelled only ends when its records are loaded. -/
theorem ended (h : Stands m began s) {reply : Reply} (hs : s.stands = .inr reply)
    (hc : s.cancelled = false) : ∃ c earlier listed, s.calls = c :: earlier ∧
      c.Succeeded ∧ c.site.listed? = some listed ∧ s.loaded? = some listed := by
  cases h with
  | listing hs' => cases hs.symm.trans hs'
  | loading hs' => cases hs.symm.trans hs'
  | pausing hs' => cases hs.symm.trans hs'
  | loaded _ _ hcalls _ hanswered hlisted =>
    have hsome := ne_of_eq_of_ne hlisted (Option.some_ne_none _)
    exact ⟨_, _, _, hcalls, ⟨hanswered, hsome⟩, hlisted,
      loaded?_of_listed hcalls hanswered hlisted⟩
  | stopped _ _ _ _ hcancelled => cases hc.symm.trans hcancelled

/-- A sync that is cancelled makes no other call. -/
theorem cancelled_step (h : Stands m began s) (hc : s.cancelled = true) (event : RollcallEvent) :
    (s.step event).cancelled = true ∧
      (s.step event).calls.map Listing.made = s.calls.map Listing.made := by
  cases event with
  | meddle x => exact ⟨hc, rfl⟩
  | cancel => exact ⟨rfl, rfl⟩
  | pass span => exact ⟨hc, rfl⟩
  | go =>
    show s.go.cancelled = true ∧ s.go.calls.map Listing.made = s.calls.map Listing.made
    cases h with
    | listing hs =>
      rw [go_cancelled hs hc]
      exact ⟨hc, rfl⟩
    | @loading c earlier outcome hs hm hcalls hregular hanswered hlisted =>
      cases hl : outcome.listed? with
      | none =>
        rw [go_failed hs hcalls hl, hcalls]
        exact ⟨hc, rfl⟩
      | some listed =>
        rw [go_listed hs hcalls hl, hcalls]
        exact ⟨hc, rfl⟩
    | pausing hs =>
      rw [go_cancelled hs hc]
      exact ⟨hc, rfl⟩
    | loaded hs =>
      rw [go_ended hs]
      exact ⟨hc, rfl⟩
    | stopped hs =>
      rw [go_ended hs]
      exact ⟨hc, rfl⟩

theorem cancelled_run (h : Stands m began s) (hc : s.cancelled = true)
    (events : List RollcallEvent) : (s.run events).cancelled = true ∧
      (s.run events).calls.map Listing.made = s.calls.map Listing.made := by
  induction events generalizing s with
  | nil => exact ⟨hc, rfl⟩
  | cons event rest ih =>
    obtain ⟨hc', hmade⟩ := h.cancelled_step hc event
    obtain ⟨hc'', hmade'⟩ := ih (h.step event) hc'
    exact ⟨hc'', hmade'.trans hmade⟩

/-- A cancelled sync returns, if need be once its call is answered. -/
theorem cancelled_returns (h : Stands m began s) (hc : s.cancelled = true) :
    s.go.go.stands = .inr .synced := by
  have stops {stage : SyncStage} (hs : s.stands = .inl (.syncing stage)) :
      s.go.go.stands = .inr .synced := by
    rw [go_cancelled hs hc, go_ended rfl]
  cases h with
  | listing hs => exact stops hs
  | pausing hs => exact stops hs
  | @loading c earlier outcome hs hm hcalls hregular hanswered hlisted =>
    cases hl : outcome.listed? with
    | none =>
      rw [go_failed hs hcalls hl]
      simp only [Rollcall.go, hc, if_true]
    | some listed => rw [go_listed hs hcalls hl, go_ended rfl]
  | loaded hs => rw [go_ended hs, go_ended hs, hs]
  | stopped hs => rw [go_ended hs, go_ended hs, hs]

/-- What the last call comes to is what a sync that has ended has loaded. -/
theorem manager_of_ended (h : Stands m began s) {reply : Reply} (hs : s.stands = .inr reply) :
    s.site.manager = s.lastListed?.elim m m.load := by
  cases h with
  | listing hs' => cases hs.symm.trans hs'
  | loading hs' => cases hs.symm.trans hs'
  | pausing hs' => cases hs.symm.trans hs'
  | loaded _ hm hcalls _ _ hlisted =>
    rw [hm, lastListed?, hcalls, List.head?_cons, Option.bind_some, hlisted, Option.elim_some]
  | stopped _ hm _ hfailed _ =>
    have hnone : s.lastListed? = none :=
      Option.bind_eq_none_iff.mpr fun c hc => (hfailed c (List.mem_of_mem_head? hc)).2
    rw [hnone, hm, Option.elim_none]

/-- Before that its cache is as it was, or the last call has yielded it. -/
theorem manager_cases (h : Stands m began s) :
    s.site.manager = m ∨ ∃ listed, s.lastListed? = some listed ∧ s.site.manager = m.load listed := by
  rw [h.manager_eq]
  unfold loaded? lastListed?
  cases s.calls with
  | nil => exact Or.inl rfl
  | cons c earlier =>
    dsimp only
    split
    · cases hl : c.site.listed? with
      | none => exact Or.inl rfl
      | some listed => exact Or.inr ⟨listed, hl, rfl⟩
    · exact Or.inl rfl

end Stands

/-- A call that is answered at once, a pause as long as it takes, and what comes after it. -/
def round : List RollcallEvent := [.go, .go, .pass SyncStage.retryDelay, .go]

def rounds (n : Nat) : List RollcallEvent := (List.replicate n round).flatten

section

variable {s : Rollcall}

theorem round_failed (hs : s.stands = .inl (.syncing .listing)) (hc : s.cancelled = false)
    (hfailed : s.site.listed? = none) : s.run round = { s with
      now := s.now + SyncStage.retryDelay
      site := s.site.list
      calls := ⟨s.now, s.site, some s.now⟩ :: s.calls } := by
  have hrun : s.run round = ((s.go.go).step (.pass SyncStage.retryDelay)).go := rfl
  have hanswer : s.go.go = { s with
      site := s.site.list
      stands := .inl (.syncing (.pausing (s.now + SyncStage.retryDelay)))
      calls := ⟨s.now, s.site, some s.now⟩ :: s.calls } := by
    rw [go_listing hs hc]
    exact go_failed (s := s.called) rfl rfl hfailed
  have hpass : (s.go.go).step (.pass SyncStage.retryDelay) = { s with
      now := s.now + SyncStage.retryDelay
      site := s.site.list
      stands := .inl (.syncing (.pausing (s.now + SyncStage.retryDelay)))
      calls := ⟨s.now, s.site, some s.now⟩ :: s.calls } := by
    rw [hanswer]
    simp only [step, limit?, hc, Bool.false_eq_true, if_false, Option.map_some, Option.getD_some,
      Nat.min_self]
  rw [hrun, hpass]
  simp only [go, hc, Bool.false_eq_true, if_false, Errand.ready, Nat.le_refl, decide_true, if_true,
    move, Errand.step, hs]

theorem round_listed {listed : List Object} (hs : s.stands = .inl (.syncing .listing))
    (hc : s.cancelled = false) (hlisted : s.site.listed? = some listed) : s.run round = { s with
      now := s.now + SyncStage.retryDelay
      site := ⟨s.site.manager.load listed, s.site.list.store⟩
      stands := .inr .synced
      calls := ⟨s.now, s.site, some s.now⟩ :: s.calls } := by
  have hrun : s.run round = ((s.go.go).step (.pass SyncStage.retryDelay)).go := rfl
  have hanswer : s.go.go = { s with
      site := ⟨s.site.manager.load listed, s.site.list.store⟩
      stands := .inr .synced
      calls := ⟨s.now, s.site, some s.now⟩ :: s.calls } := by
    rw [go_listing hs hc]
    exact go_listed (s := s.called) rfl rfl hlisted
  rw [hrun, hanswer]
  rfl

/-- So many times from `now` on, each a pause after the one before. -/
def times (now : Time) (n : Nat) : List Time :=
  (List.range n).map fun k => now + k * SyncStage.retryDelay

theorem times_succ (now : Time) (n : Nat) :
    times now (n + 1) = now :: times (now + SyncStage.retryDelay) n := by
  have hshift (k : Nat) : now + (k + 1) * SyncStage.retryDelay =
      now + SyncStage.retryDelay + k * SyncStage.retryDelay := by
    rw [Nat.succ_mul, Nat.add_assoc, Nat.add_comm SyncStage.retryDelay]
  rw [times, List.range_succ_eq_map, List.map_cons, List.map_map, Nat.zero_mul]
  refine congrArg (now :: ·) (List.map_congr_left ?_)
  intro k _
  exact hshift k

theorem run_rounds {n : Nat} {listed : List Object} (hs : s.stands = .inl (.syncing .listing))
    (hc : s.cancelled = false) (hfailed : ∀ k < n, (s.site.lists k).listed? = none)
    (hlisted : (s.site.lists n).listed? = some listed) :
    (s.run (rounds (n + 1))).stands = .inr .synced ∧
      (s.run (rounds (n + 1))).site.manager = s.site.manager.load listed ∧
      (s.run (rounds (n + 1))).calls.map (·.began) =
        (times s.now (n + 1)).reverse ++ s.calls.map (·.began) := by
  induction n generalizing s with
  | zero =>
    have hrun : s.run (rounds 1) = s.run round := rfl
    rw [hrun, round_listed hs hc hlisted]
    exact ⟨rfl, rfl, rfl⟩
  | succ n ih =>
    have hrun : s.run (rounds (n + 2)) = (s.run round).run (rounds (n + 1)) :=
      List.foldl_append
    have hround := round_failed hs hc (hfailed 0 (Nat.succ_pos n))
    rw [hrun, hround]
    -- A failure leaves a sync that is about to list, a second later and a listing further.
    have hlater : ∀ k < n, (s.site.list.lists k).listed? = none :=
      fun k hk => hfailed (k + 1) (Nat.succ_lt_succ hk)
    obtain ⟨hends, hloads, hbegan⟩ := ih (s := { s with
      now := s.now + SyncStage.retryDelay
      site := s.site.list
      calls := ⟨s.now, s.site, some s.now⟩ :: s.calls }) hs hc hlater hlisted
    refine ⟨hends, hloads, ?_⟩
    rw [hbegan, times_succ s.now (n + 1), List.reverse_cons, List.append_assoc]
    rfl

end

end Rollcall

namespace VersionManager

/-- What loading these records makes of a manager: under the name of a listed record that the
manager owns the last one of that name is cached, and under any other name what was there before;
and the manager has synced. -/
structure Loaded (m : VersionManager) (listed : List Object) (m' : VersionManager) : Prop where
  records : ∀ key, m'.records.find? key =
    ((listed.filter fun o => m.owns o.name ∧ o.name = key).getLast?).or (m.records.find? key)
  hasSynced : m'.hasSynced = true
  setup : m'.setup = m.setup

theorem loaded_load (m : VersionManager) (listed : List Object) : m.Loaded listed (m.load listed) :=
  ⟨m.find?_load listed, rfl, m.setup_load listed⟩

end VersionManager

namespace Rollcall

/-- What a sync comes to that is cancelled before a call has succeeded. -/
theorem Stands.cancelled {m : VersionManager} {began : Time} {s : Rollcall} (h : Stands m began s)
    (hnone : ∀ c ∈ s.calls, ¬ c.Succeeded) (later : List RollcallEvent) :
    let u := (s.step .cancel).run later
    u.calls.map (·.began) = s.calls.map (·.began) ∧ u.go.go.stands = .inr .synced ∧
      (s.underWay? = none → u.site.manager = m) ∧
      ∀ c, s.underWay? = some c → (c.site.listed? = none → u.site.manager = m) ∧
        ∀ listed, c.site.listed? = some listed →
          (u.site.manager = m ∨ m.Loaded listed u.site.manager) ∧
          m.Loaded listed u.go.go.site.manager := by
  intro u
  have hcancel : Stands m began (s.step .cancel) := h.step .cancel
  have hu : Stands m began u := hcancel.run later
  obtain ⟨hc, hmade⟩ := hcancel.cancelled_run rfl later
  have hbegan : u.calls.map (·.began) = s.calls.map (·.began) := by
    have hfst := congrArg (List.map Prod.fst) hmade
    rwa [List.map_map, List.map_map] at hfst
  have hreturns : u.go.go.stands = .inr .synced := hu.cancelled_returns hc
  have hlast : u.lastListed? = s.lastListed? := lastListed?_congr hmade
  have hsame (hl : s.lastListed? = none) : u.site.manager = m := by
    rcases hu.manager_cases with hm | ⟨listed, hl', -⟩
    · exact hm
    · cases hl'.symm.trans (hlast.trans hl)
  refine ⟨hbegan, hreturns, fun hway => hsame (lastListed?_of_not_succeeded hnone hway), ?_⟩
  intro c hway
  have hway' : s.lastListed? = c.site.listed? := lastListed?_of_underWay hway
  refine ⟨fun hl => hsame (hway'.trans hl), ?_⟩
  intro listed hl
  have hlisted : u.lastListed? = some listed := hlast.trans (hway'.trans hl)
  constructor
  · rcases hu.manager_cases with hm | ⟨listed', hl', hm⟩
    · exact Or.inl hm
    · cases hl'.symm.trans hlisted
      rw [hm]
      exact Or.inr (m.loaded_load listed)
  · have hlater : u.go.go.lastListed? = some listed :=
      (lastListed?_congr (hu.cancelled_run hc [.go, .go]).2).trans hlisted
    have hreturned : Stands m began u.go.go := hu.run [.go, .go]
    rw [hreturned.manager_of_ended hreturns, hlater]
    exact m.loaded_load listed

end Rollcall

/-- A sync lists at once, and again a second after each failure. What gets into the cache is the
result of the call that succeeds, and the manager has synced from then on; until then nothing has
changed. A sync that nobody cancels does not end before, so that it makes `n + 1` calls if the first
`n` fail. If it is cancelled before a call has succeeded, it makes no other call and returns; it
changes nothing unless a call was under way that succeeds nevertheless, whose result it loads. -/
theorem sync_retries (x : Site) (began : Time) (before : List RollcallEvent) :
    let s := (Rollcall.new x began).run before
    (Rollcall.Regular began s.calls ∧ (s.loaded? = none → s.site.manager = x.manager) ∧
      ∀ listed, s.loaded? = some listed → x.manager.Loaded listed s.site.manager) ∧
    (∀ reply, s.stands = .inr reply → s.cancelled = false → ∃ c earlier listed,
      s.calls = c :: earlier ∧ c.Succeeded ∧ c.site.listed? = some listed ∧
      x.manager.Loaded listed s.site.manager) ∧
    ((∀ c ∈ s.calls, ¬ c.Succeeded) → ∀ later,
      let u := (s.step .cancel).run later
      u.calls.map (·.began) = s.calls.map (·.began) ∧ u.go.go.stands = .inr .synced ∧
      (s.underWay? = none → u.site.manager = x.manager) ∧
      ∀ c, s.underWay? = some c →
        (c.site.listed? = none → u.site.manager = x.manager) ∧
        ∀ listed, c.site.listed? = some listed →
          (u.site.manager = x.manager ∨ x.manager.Loaded listed u.site.manager) ∧
          x.manager.Loaded listed u.go.go.site.manager) ∧
    ∀ n listed, (∀ k < n, (x.lists k).listed? = none) → (x.lists n).listed? = some listed →
      let u := (Rollcall.new x began).run (Rollcall.rounds (n + 1))
      u.stands = .inr .synced ∧ x.manager.Loaded listed u.site.manager ∧
        u.calls.map (·.began) = (Rollcall.times began (n + 1)).reverse := by
  intro s
  have h : Rollcall.Stands x.manager began s := (Rollcall.Stands.new x began).run before
  have hloaded (listed : List Object) (hl : s.loaded? = some listed) :
      x.manager.Loaded listed s.site.manager := by
    rw [h.manager_eq, hl]
    exact x.manager.loaded_load listed
  refine ⟨⟨h.regular, ?_, hloaded⟩, ?_, fun hnone later => h.cancelled hnone later, ?_⟩
  · intro hl
    rw [h.manager_eq, hl, Option.elim_none]
  · intro reply hs hc
    obtain ⟨c, earlier, listed, hcalls, hsucceeded, hlisted, hl⟩ := h.ended hs hc
    exact ⟨c, earlier, listed, hcalls, hsucceeded, hlisted, hloaded listed hl⟩
  · intro n listed hfailed hlisted u
    obtain ⟨hends, hloads, hbegan⟩ :=
      Rollcall.run_rounds (s := Rollcall.new x began) rfl rfl hfailed hlisted
    refine ⟨hends, ?_, hbegan.trans (List.append_nil _)⟩
    rw [hloads]
    exact x.manager.loaded_load listed

namespace Sample

/-- The first list call is going to fail. -/
def faulty : Site := start.failNext .list .unavailable

/-- The record as the store has it. -/
def stored : Object := (MemoryStore.empty.insert start.kind record).2

end Sample

/-- It takes two calls to load the stored record, unless the sync is cancelled once the first one has
failed. A call that is under way when the sync is cancelled is enough to load it. -/
theorem sync_retries_sample :
    let twice := (Rollcall.new Sample.faulty 0).run (Rollcall.rounds 2)
    (twice.calls.map (·.began) = [1000, 0] ∧ twice.site.manager.hasSynced = true ∧
      twice.site.manager.records.find? Sample.record.name = some Sample.stored) ∧
    (∀ later,
      let u := (((Rollcall.new Sample.faulty 0).run [.go, .go]).step .cancel).run later
      u.calls.map (·.began) = [0] ∧ u.site.manager.hasSynced = false) ∧
    ∀ later,
      let u := (((Rollcall.new Sample.start 0).run [.go]).step .cancel).run later
      u.calls.map (·.began) = [0] ∧
      u.go.go.site.manager.records.find? Sample.record.name = some Sample.stored := by
  intro twice
  have hfaults : Sample.faulty.store.faults = List.replicate 1 (.list, .unavailable) := rfl
  obtain ⟨hfailed, -⟩ := Site.listed?_of_faults hfaults
  obtain ⟨-, -, hcancelled, hretried⟩ := sync_retries Sample.faulty 0 [.go, .go]
  obtain ⟨-, hloaded, hcalls⟩ := hretried 1 [Sample.stored] hfailed rfl
  refine ⟨⟨hcalls, hloaded.hasSynced, hloaded.records _⟩, ?_, ?_⟩
  · intro later
    have hfirst : ∀ c ∈ ((Rollcall.new Sample.faulty 0).run [.go, .go]).calls, ¬ c.Succeeded := by
      intro c hc hsucceeded
      cases List.mem_singleton.mp hc
      exact hsucceeded.2 (Site.listed?_of_fault hfaults).1
    obtain ⟨hbegan, -, hsame, -⟩ := hcancelled hfirst later
    exact ⟨hbegan, congrArg VersionManager.hasSynced (hsame rfl)⟩
  · intro later
    obtain ⟨-, -, hcancelled, -⟩ := sync_retries Sample.start 0 [.go]
    have hfirst : ∀ c ∈ ((Rollcall.new Sample.start 0).run [.go]).calls, ¬ c.Succeeded := by
      intro c hc hsucceeded
      cases List.mem_singleton.mp hc
      exact hsucceeded.1 rfl
    obtain ⟨hbegan, -, -, hway⟩ := hcancelled hfirst later
    exact ⟨hbegan, ((hway _ rfl).2 [Sample.stored] rfl).2.records _⟩

/-- A manager can have synced although its sync was cancelled before a call succeeded: if it had
synced before, or if the call under way is answered with records. -/
theorem cancelled_sync_synced :
    let again := Rollcall.new Sample.synced 1000
    let listing := (Rollcall.new Sample.start 0).run [.go]
    (again.calls = [] ∧ (again.run [.cancel, .go]).stands = .inr .synced ∧
      (again.run [.cancel, .go]).site.manager.hasSynced = true) ∧
    (∀ c ∈ listing.calls, ¬ c.Succeeded) ∧ listing.site.manager.hasSynced = false ∧
      (listing.run [.cancel, .go]).stands = .inr .synced ∧
      (listing.run [.cancel, .go]).site.manager.hasSynced = true := by
  intro again listing
  refine ⟨⟨rfl, rfl, rfl⟩, ?_, rfl, rfl, rfl⟩
  intro c hc hsucceeded
  cases List.mem_singleton.mp hc
  exact hsucceeded.1 rfl

end FedTrack
