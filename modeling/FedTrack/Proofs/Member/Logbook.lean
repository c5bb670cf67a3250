import FedTrack.Proofs.Member.Lookout
import FedTrack.Proofs.Table.Order
import Mathlib.Data.List.Basic

namespace FedTrack

namespace ClusterEvent

def isHealthy : ClusterEvent → Bool
  | .healthy _ => true
  | .unhealthy _ => false

def time : ClusterEvent → Time
  | .healthy now => now
  | .unhealthy now => now

end ClusterEvent

namespace ClusterState

/-- The state of a cluster that became ready, or stopped being it, at a time. -/
def changed (available : Bool) (time : Time) : ClusterState :=
  if available then .ready time else .notReady time

@[simp] theorem isReady_changed (available : Bool) (time : Time) :
    (changed available time).isReady = available := by
  cases available <;> rfl

/-- Only an answer that is at odds with the state changes it. -/
theorem onEvent_eq (s : ClusterState) (e : ClusterEvent) :
    s.onEvent e = if e.isHealthy = s.isReady then none else some (changed e.isHealthy e.time) := by
  cases s <;> cases e <;> rfl

end ClusterState

/-- A cluster became ready or stopped being it, while these handlers were registered. -/
structure Change (H : Type) where
  cluster : String
  available : Bool
  time : Time
  audience : List H

namespace Change

variable {H : Type}

/-- The call that tells one handler of the change. -/
def notice (c : Change H) (h : H) : Notice H := ⟨h, c.cluster, c.available⟩

def notices (c : Change H) : List (Notice H) := c.audience.map c.notice

def state (c : Change H) : ClusterState := .changed c.available c.time

end Change

/-- The states of all clusters, with the changes that there were and the calls that handlers got,
both in the order in which they came. -/
structure Logbook (H : Type) where
  states : ClusterStates H
  changes : List (Change H)
  told : List (Notice H)

inductive LogbookEvent (H : Type)
  | register (h : H)
  /-- A probe of a cluster is answered. -/
  | probe (cluster : String) (e : ClusterEvent)
  | markSynced

namespace LogbookEvent

variable {H : Type}

def handler? : LogbookEvent H → Option H
  | .register h => some h
  | _ => none

end LogbookEvent

/-- The handlers that are registered, in the order of their registration. -/
def registered {H : Type} (events : List (LogbookEvent H)) : List H :=
  events.filterMap (·.handler?)

namespace Logbook

variable {H : Type}

def start (clusters : List String) : Logbook H := ⟨.new clusters, [], []⟩

/-- What a probe has changed, by the states before and after it. -/
def changeOf (before after : ClusterStates H) (cluster : String) (e : ClusterEvent) :
    List (Change H) :=
  if after.state? cluster = before.state? cluster then []
  else [⟨cluster, (after.state? cluster).any (·.isReady), e.time, before.handlers⟩]

def step (l : Logbook H) : LogbookEvent H → Logbook H
  | .register h => { l with states := l.states.addHandler h }
  | .markSynced => { l with states := l.states.markSynced }
  | .probe cluster e =>
    let (states, notices) := l.states.onEvent cluster e
    ⟨states, l.changes ++ changeOf l.states states cluster e, l.told ++ notices⟩

def run (l : Logbook H) (events : List (LogbookEvent H)) : Logbook H := events.foldl step l

theorem run_append (l : Logbook H) (before after : List (LogbookEvent H)) :
    l.run (before ++ after) = (l.run before).run after := List.foldl_append

/-- Changes of one cluster. -/
def of (l : Logbook H) (cluster : String) : List (Change H) :=
  l.changes.filter (·.cluster = cluster)

/-- The last change of a cluster. -/
def last? (l : Logbook H) (cluster : String) : Option (Change H) := (l.of cluster).getLast?

/-- A probe of a cluster that is known changes its state if it is at odds with it, and then all
handlers are told. -/
theorem step_probe (l : Logbook H) (cluster : String) (e : ClusterEvent) :
    ((l.states.state? cluster).all (·.isReady = e.isHealthy) = true ∧
      l.step (.probe cluster e) = l) ∨
    ∃ old, l.states.state? cluster = some old ∧ e.isHealthy = !old.isReady ∧
      ∃ c : Change H, c = ⟨cluster, e.isHealthy, e.time, l.states.handlers⟩ ∧
        l.step (.probe cluster e) =
          ⟨{ l.states with states := l.states.states.insert cluster c.state },
            l.changes ++ [c], l.told ++ c.notices⟩ := by
  cases hs : l.states.state? cluster with
  | none =>
    left
    simp [step, ClusterStates.onEvent, changeOf, hs]
  | some old =>
    by_cases he : e.isHealthy = old.isReady
    · left
      simp [step, ClusterStates.onEvent, changeOf, hs, ClusterState.onEvent_eq, he]
    · right
      have hflips : e.isHealthy = !old.isReady := by
        cases he' : e.isHealthy <;> cases ho : old.isReady <;> simp_all
      have hnew : (l.states.state? cluster).bind (·.onEvent e) =
          some (.changed e.isHealthy e.time) := by
        rw [hs, Option.bind_some, ClusterState.onEvent_eq, if_neg he]
      have hne : ClusterState.changed e.isHealthy e.time ≠ old := by
        intro hold
        rw [← hold, ClusterState.isReady_changed] at he
        exact he rfl
      have hevent : l.states.onEvent cluster e =
          ({ l.states with states := l.states.states.insert cluster (.changed e.isHealthy e.time) },
            l.states.handlers.map fun h => ⟨h, cluster, e.isHealthy⟩) := by
        simp only [ClusterStates.onEvent, hnew, ClusterState.isReady_changed]
      refine ⟨old, rfl, hflips, _, rfl, ?_⟩
      simp only [step, hevent, changeOf, hs]
      simp only [ClusterStates.state?, Table.find?_insert, if_pos, Option.some.injEq, if_neg hne,
        Option.any_some, ClusterState.isReady_changed]
      rfl

/-- The first `n` changes of a cluster: it becomes available, then it alternates. -/
def turns (n : Nat) : List Bool := (List.range n).map fun i => i % 2 == 0

theorem turns_succ (n : Nat) : turns (n + 1) = turns n ++ [n % 2 == 0] := by
  simp [turns, List.range_succ]

/-- Where the changes of a cluster alternate, its last one tells how many there were. -/
theorem any_getLast?_of_turns {changes : List (Change H)}
    (h : changes.map (·.available) = turns changes.length) :
    changes.getLast?.any (·.available) = (changes.length % 2 == 1) := by
  have hlast : changes.getLast?.any (·.available) =
      (changes.map (·.available)).getLast?.any (· = true) := by
    rw [List.getLast?_map, Option.any_map]
    simp
  rw [hlast, h]
  cases changes.length with
  | zero => rfl
  | succ n =>
    rw [turns_succ, List.getLast?_append]
    have hmod : n % 2 = 0 ↔ (n + 1) % 2 = 1 := by omega
    have hsame : (n % 2 == 0) = ((n + 1) % 2 == 1) := by
      rw [Bool.eq_iff_iff, beq_iff_eq, beq_iff_eq, hmod]
    simp [hsame]

/-- What holds of a logbook after any events. -/
structure Kept (clusters : List String) (l : Logbook H) : Prop where
  state : ∀ c, l.states.state? c =
    if c ∈ clusters then some ((l.last? c).elim .unavailable (·.state)) else none
  known : ∀ c ∈ l.changes, c.cluster ∈ clusters
  told : l.told = l.changes.flatMap (·.notices)
  turns : ∀ c, (l.of c).map (·.available) = turns (l.of c).length

namespace Kept

variable {clusters : List String} {l : Logbook H}

theorem start (clusters : List String) : Kept clusters (.start clusters : Logbook H) := by
  refine ⟨?_, nofun, rfl, fun c => rfl⟩
  intro c
  have hfind := Table.find?_foldl_insert
    (clusters.map fun c => (c, ClusterState.unavailable)) .empty c
  simp only [Logbook.start, ClusterStates.state?, last?, of]
  rcases hfind with ⟨hnone, hf⟩ | ⟨state, hmem, hf⟩
  · have hc : c ∉ clusters := fun hc => hnone _ (List.mem_map_of_mem hc)
    rw [if_neg hc]
    exact hf
  · obtain ⟨c', hc, he⟩ := List.mem_map.mp hmem
    cases he
    rw [if_pos hc]
    exact hf

theorem isReady_eq (h : Kept clusters l) {c : String} {old : ClusterState}
    (hs : l.states.state? c = some old) : old.isReady = ((l.of c).length % 2 == 1) := by
  rw [← any_getLast?_of_turns (h.turns c)]
  have hstate := h.state c
  rw [hs] at hstate
  split at hstate
  · rw [Option.some.inj hstate, last?]
    cases (l.of c).getLast? with
    | none => rfl
    | some change => simp [Change.state]
  · cases hstate

theorem step (h : Kept clusters l) (e : LogbookEvent H) : Kept clusters (l.step e) := by
  cases e with
  | register handler => exact ⟨h.state, h.known, h.told, h.turns⟩
  | markSynced => exact ⟨h.state, h.known, h.told, h.turns⟩
  | probe cluster e =>
    rcases l.step_probe cluster e with ⟨-, hsame⟩ | ⟨old, hs, hflips, change, hchange, hstep⟩
    · rw [hsame]
      exact h
    · have hof (c : String) : (l.step (.probe cluster e)).of c =
          if c = cluster then l.of c ++ [change] else l.of c := by
        rw [hstep, of, of, List.filter_append]
        by_cases hc : c = cluster
        · simp [hchange, hc]
        · have hne : cluster ≠ c := fun he => hc he.symm
          simp [hchange, hc, hne]
      have hknown : cluster ∈ clusters := by
        rw [h.state] at hs
        split at hs
        · assumption
        · cases hs
      refine ⟨?_, ?_, ?_, ?_⟩
      · intro c
        have hfind : (l.step (.probe cluster e)).states.state? c =
            if cluster = c then some change.state else l.states.state? c := by
          rw [hstep]
          simp [ClusterStates.state?]
        rw [hfind, last?, hof]
        by_cases hc : cluster = c
        · subst hc
          simp [hknown]
        · have hne : c ≠ cluster := fun he => hc he.symm
          rw [if_neg hc, if_neg hne]
          exact h.state c
      · intro c hc
        rw [hstep] at hc
        rcases List.mem_append.mp hc with hc | hc
        · exact h.known c hc
        · rw [List.mem_singleton.mp hc, hchange]
          exact hknown
      · rw [hstep, h.told, List.flatMap_append, List.flatMap_singleton]
      · intro c
        rw [hof]
        by_cases hc : c = cluster
        · subst hc
          have hturn : change.available = ((l.of c).length % 2 == 0) := by
            have hmod := Nat.mod_two_eq_zero_or_one (l.of c).length
            rw [hchange, hflips, h.isReady_eq hs]
            rcases hmod with hmod | hmod <;> simp [hmod]
          rw [if_pos rfl, List.map_append, List.length_append, List.map_singleton,
            List.length_singleton, turns_succ, h.turns, hturn]
        · rw [if_neg hc]
          exact h.turns c

theorem run (h : Kept clusters l) (events : List (LogbookEvent H)) :
    Kept clusters (l.run events) := by
  induction events generalizing l with
  | nil => exact h
  | cons e rest ih => exact ih (h.step e)

/-- A cluster is ready if its last change was to being available. -/
theorem mem_ready_iff (h : Kept clusters l) {c : String} : c ∈ l.states.ready ↔
    ∃ change, l.last? c = some change ∧ change.available = true := by
  rw [ClusterStates.mem_ready, h.state]
  cases hlast : l.last? c with
  | none =>
    have hnot : Option.any (·.isReady)
        (if c ∈ clusters then some ClusterState.unavailable else none) = false := by
      split <;> rfl
    simp [hnot]
  | some change =>
    have hmem : change ∈ l.of c := List.mem_of_getLast? hlast
    obtain ⟨hchange, hcluster⟩ := List.mem_filter.mp hmem
    have hc : c ∈ clusters := by
      rw [← of_decide_eq_true hcluster]
      exact h.known change hchange
    simp [hc, Change.state]

/-- Clusters that are not configured are passed over. -/
theorem step_unknown (h : Kept clusters l) {cluster : String} (hc : cluster ∉ clusters)
    (e : ClusterEvent) : l.step (.probe cluster e) = l := by
  have hnone : l.states.state? cluster = none := by rw [h.state, if_neg hc]
  rcases l.step_probe cluster e with ⟨-, hsame⟩ | ⟨old, hs, -⟩
  · exact hsame
  · cases hnone.symm.trans hs

/-- A configured cluster is ready after a probe exactly if it was found healthy. -/
theorem ready_after_probe (h : Kept clusters l) {cluster : String} (hc : cluster ∈ clusters)
    (e : ClusterEvent) : cluster ∈ (l.step (.probe cluster e)).states.ready ↔ e.isHealthy = true := by
  rw [ClusterStates.mem_ready]
  rcases l.step_probe cluster e with ⟨hall, hsame⟩ | ⟨old, -, -, change, hchange, hstep⟩
  · have hstate := h.state cluster
    rw [if_pos hc] at hstate
    rw [hstate, Option.all_some, decide_eq_true_eq] at hall
    rw [hsame, hstate, Option.any_some, hall]
  · rw [hstep]
    simp [ClusterStates.state?, Change.state, hchange]

end Kept

theorem pairwise_ready (s : ClusterStates H) :
    s.ready.Pairwise fun a b => Key.lt a b = true := by
  have hsub : (s.states.entries.filter fun e => e.2.isReady).Sublist s.states.entries :=
    List.filter_sublist
  exact s.states.pairwise_keys.sublist (hsub.map Prod.fst)

/-! Who is told. -/

/-- What has happened from one logbook to a later one: these changes, each told to handlers that
include all that were registered at the beginning and no others than those registered at the end. -/
def Since (l : Logbook H) (changes : List (Change H)) (m : Logbook H) : Prop :=
  m.changes = l.changes ++ changes ∧ m.told = l.told ++ changes.flatMap (·.notices) ∧
    l.states.handlers <+: m.states.handlers ∧
      ∀ c ∈ changes, l.states.handlers <+: c.audience ∧ c.audience <+: m.states.handlers

namespace Since

variable {l m k : Logbook H} {changes more : List (Change H)}

theorem refl (l : Logbook H) : Since l [] l :=
  ⟨(List.append_nil _).symm, (List.append_nil _).symm, List.prefix_rfl, nofun⟩

theorem trans (h : Since l changes m) (h' : Since m more k) : Since l (changes ++ more) k := by
  obtain ⟨hc, ht, hh, ha⟩ := h
  obtain ⟨hc', ht', hh', ha'⟩ := h'
  refine ⟨?_, ?_, hh.trans hh', ?_⟩
  · rw [hc', hc, List.append_assoc]
  · rw [ht', ht, List.flatMap_append, List.append_assoc]
  · intro c hmem
    rcases List.mem_append.mp hmem with hmem | hmem
    · obtain ⟨hfrom, hto⟩ := ha c hmem
      exact ⟨hfrom, hto.trans hh'⟩
    · obtain ⟨hfrom, hto⟩ := ha' c hmem
      exact ⟨hh.trans hfrom, hto⟩

theorem step (l : Logbook H) (e : LogbookEvent H) : ∃ changes, Since l changes (l.step e) := by
  cases e with
  | register h =>
    exact ⟨[], (List.append_nil _).symm, (List.append_nil _).symm, List.prefix_append _ _, nofun⟩
  | markSynced =>
    exact ⟨[], (List.append_nil _).symm, (List.append_nil _).symm, List.prefix_rfl, nofun⟩
  | probe cluster e =>
    rcases l.step_probe cluster e with ⟨-, hsame⟩ | ⟨old, -, -, change, hchange, hstep⟩
    · rw [hsame]
      exact ⟨[], refl l⟩
    · rw [hstep]
      refine ⟨[change], rfl, ?_, List.prefix_rfl, ?_⟩
      · rw [List.flatMap_singleton]
      · intro c hc
        rw [List.mem_singleton.mp hc, hchange]
        exact ⟨List.prefix_rfl, List.prefix_rfl⟩

theorem run (l : Logbook H) (events : List (LogbookEvent H)) :
    ∃ changes, Since l changes (l.run events) := by
  induction events generalizing l with
  | nil => exact ⟨[], refl l⟩
  | cons e rest ih =>
    obtain ⟨first, hfirst⟩ := step l e
    obtain ⟨others, hothers⟩ := ih (l.step e)
    exact ⟨first ++ others, hfirst.trans hothers⟩

end Since

theorem handlers_step (l : Logbook H) (e : LogbookEvent H) :
    (l.step e).states.handlers = l.states.handlers ++ registered [e] := by
  cases e with
  | register h => rfl
  | markSynced => exact (List.append_nil _).symm
  | probe cluster e =>
    have hnone : registered [LogbookEvent.probe cluster e] = ([] : List H) := rfl
    rw [hnone, List.append_nil]
    rcases l.step_probe cluster e with ⟨-, hsame⟩ | ⟨old, -, -, change, -, hstep⟩
    · rw [hsame]
    · rw [hstep]

theorem handlers_run (l : Logbook H) (events : List (LogbookEvent H)) :
    (l.run events).states.handlers = l.states.handlers ++ registered events := by
  induction events generalizing l with
  | nil => exact (List.append_nil _).symm
  | cons e rest ih =>
    have hcons : registered (e :: rest) = registered [e] ++ registered rest :=
      List.filterMap_append (l := [e])
    have hrest := ih (l.step e)
    rw [handlers_step, List.append_assoc, ← hcons] at hrest
    exact hrest

section
variable [DecidableEq H] {h : H}

/-- One change tells a handler as often as it is registered. -/
theorem filter_notices (c : Change H) (h : H) :
    c.notices.filter (·.handler = h) = List.replicate (c.audience.count h) (c.notice h) := by
  have hcomp : ((fun n : Notice H => decide (n.handler = h)) ∘ c.notice) = (· == h) := rfl
  rw [Change.notices, List.filter_map, hcomp, List.filter_beq, List.map_replicate]

theorem filter_flatMap_notices {changes : List (Change H)} {n : Nat}
    (hn : ∀ c ∈ changes, c.audience.count h = n) :
    (changes.flatMap (·.notices)).filter (·.handler = h) =
      changes.flatMap fun c => List.replicate n (c.notice h) := by
  rw [List.filter_flatMap]
  apply List.flatMap_congr
  intro c hc
  rw [filter_notices, hn c hc]

/-- A handler that is registered once is told of each change after that, and of no other one. -/
theorem told_once {l : Logbook H} (hl : l.told = l.changes.flatMap (·.notices))
    (hbefore : ∀ c ∈ l.changes, c.audience <+: l.states.handlers) (hfresh : h ∉ l.states.handlers)
    {after : List (LogbookEvent H)} (hafter : h ∉ registered after) :
    ∃ since, ((l.step (.register h)).run after).changes = l.changes ++ since ∧
      ((l.step (.register h)).run after).told.filter (·.handler = h) =
        since.map (·.notice h) := by
  obtain ⟨since, hchanges, htold, -, haudience⟩ := Since.run (l.step (.register h)) after
  refine ⟨since, hchanges, ?_⟩
  have hearly : ∀ c ∈ l.changes, c.audience.count h = 0 := by
    intro c hc
    exact List.count_eq_zero.mpr fun hm => hfresh ((hbefore c hc).subset hm)
  have hlate : ∀ c ∈ since, c.audience.count h = 1 := by
    intro c hc
    obtain ⟨hfrom, hto⟩ := haudience c hc
    have hstart : (l.step (.register h)).states.handlers.count h = 1 := by
      have hnone : l.states.handlers.count h = 0 := List.count_eq_zero.mpr hfresh
      rw [handlers_step, List.count_append, hnone]
      simp [registered, LogbookEvent.handler?]
    have hend : ((l.step (.register h)).run after).states.handlers.count h = 1 := by
      have hnone : (registered after).count h = 0 := List.count_eq_zero.mpr hafter
      rw [handlers_run, List.count_append, hstart, hnone]
    have hle := hfrom.sublist.count_le h
    have hge := hto.sublist.count_le h
    omega
  rw [htold, List.filter_append]
  have hnone : (l.step (.register h)).told.filter (·.handler = h) = [] := by
    have hsame : (l.step (.register h)).told = l.changes.flatMap (·.notices) := hl
    rw [hsame, filter_flatMap_notices hearly]
    simp
  rw [hnone, List.nil_append, filter_flatMap_notices hlate,
    List.map_eq_flatMap]
  rfl

/-- Over any probes and registrations, the changes of each cluster alternate, beginning with its
becoming available, and what the states show of a cluster is its last change: whether it is ready,
and since when. Each change is told once to each handler registered by then, in the order of their
registration. Probes of a cluster that is not configured do nothing, and a configured one is ready
after a probe exactly if it was found healthy. -/
theorem changes_alternate (clusters : List String) (events : List (LogbookEvent H)) :
    let l : Logbook H := (start clusters).run events
    (∀ c, (l.of c).map (·.available) = turns (l.of c).length) ∧
    (∀ c, l.states.state? c =
      if c ∈ clusters then some ((l.last? c).elim .unavailable (·.state)) else none) ∧
    l.states.ready.Pairwise (fun a b => Key.lt a b = true) ∧
    (∀ c, c ∈ l.states.ready ↔ ∃ change, l.last? c = some change ∧ change.available = true) ∧
    l.told = l.changes.flatMap (·.notices) ∧
    (∀ change ∈ l.changes, change.audience <+: registered events) ∧
    (∀ before h after, events = before ++ .register h :: after →
      h ∉ registered before → h ∉ registered after →
      ∃ since, l.changes = ((start clusters).run before).changes ++ since ∧
        l.told.filter (·.handler = h) = since.map (·.notice h)) ∧
    (∀ c, c ∉ clusters → ∀ e, l.step (.probe c e) = l) ∧
    ∀ c, c ∈ clusters → ∀ e, c ∈ (l.step (.probe c e)).states.ready ↔ e.isHealthy = true := by
  have hkept (events : List (LogbookEvent H)) : Kept clusters ((start clusters).run events) :=
    (Kept.start clusters).run events
  have haudience (events : List (LogbookEvent H)) :
      ∀ c ∈ ((start clusters).run events).changes,
        c.audience <+: ((start clusters).run events).states.handlers := by
    obtain ⟨changes, hchanges, -, -, hall⟩ := Since.run (start clusters) events
    intro c hc
    rw [hchanges, start, List.nil_append] at hc
    exact (hall c hc).2
  have hhandlers (events : List (LogbookEvent H)) :
      ((start clusters).run events).states.handlers = registered events := by
    rw [handlers_run]
    rfl
  refine ⟨(hkept events).turns, (hkept events).state, pairwise_ready _,
    fun c => (hkept events).mem_ready_iff, (hkept events).told, ?_, ?_,
    fun c hc e => (hkept events).step_unknown hc e,
    fun c hc e => (hkept events).ready_after_probe hc e⟩
  · intro change hchange
    rw [← hhandlers]
    exact haudience events change hchange
  · rintro before h after rfl hfresh hafter
    rw [run_append]
    exact told_once (hkept before).told (haudience before) ((hhandlers before).symm ▸ hfresh) hafter

/-- A cluster that is found unhealthy at first, and twice after it was healthy. A handler that is
registered meanwhile is told of what comes after. -/
theorem changes_alternate_sample :
    let before : List (LogbookEvent String) :=
      [.register "a", .probe "c1" (.unhealthy 1), .probe "c1" (.healthy 2)]
    let after : List (LogbookEvent String) :=
      [.probe "c1" (.unhealthy 3), .probe "c1" (.unhealthy 4), .probe "c9" (.healthy 5)]
    let l : Logbook String := (start ["c1", "c2"]).run (before ++ .register "b" :: after)
    l.told = [⟨"a", "c1", true⟩, ⟨"a", "c1", false⟩, ⟨"b", "c1", false⟩] ∧
      l.states.state? "c1" = some (.notReady 3) ∧
      (∃ since, l.changes = ((start ["c1", "c2"]).run before).changes ++ since ∧
        l.told.filter (·.handler = "b") = since.map (·.notice "b")) ∧
      l.step (.probe "c9" (.healthy 6)) = l ∧
      "c2" ∈ (l.step (.probe "c2" (.healthy 6))).states.ready := by
  intro before after l
  obtain ⟨-, -, -, -, -, -, hregistered, hunknown, hprobed⟩ :=
    changes_alternate ["c1", "c2"] (before ++ .register "b" :: after)
  exact ⟨by decide, by decide, hregistered before "b" after rfl (by decide) (by decide),
    hunknown "c9" (by decide) _, (hprobed "c2" (by decide) _).mpr rfl⟩

end

end Logbook

end FedTrack
