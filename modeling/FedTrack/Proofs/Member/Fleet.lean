import FedTrack.Member.Informer
import FedTrack.Proofs.Table.Lookup

namespace FedTrack

/-- The states of all clusters, and an informer that is one of the handlers told of changes. -/
structure Fleet (H : Type) where
  states : ClusterStates H
  informer : Informer
  /-- For each event under way the handler calls that are left to make. -/
  calls : List (List (Notice H))
  /-- All caches ever started, with their clusters. -/
  started : List (String × Nat)

/-- What can happen next, in any order. -/
inductive FleetMove
  /-- A probe's answer changes a state; the handlers are called afterwards. -/
  | event (cluster : String) (e : ClusterEvent)
  /-- An event under way goes on with its next handler. -/
  | notify (i : Nat)
  /-- A cluster that was asked tells how it serves the type, or it fails to. -/
  | found (cluster : String)
  | notFound (cluster : String)

namespace Fleet

variable {H : Type}

def new (clusters : List String) (handlers : List H) : Fleet H :=
  ⟨handlers.foldl (·.addHandler ·) (.new clusters), .new, [], []⟩

def isReady (s : Fleet H) (cluster : String) : Bool := (s.states.state? cluster).any (·.isReady)

section
variable [DecidableEq H] (h : H)

/-- One move, where `h` is the informer among the handlers. -/
def step (s : Fleet H) : FleetMove → Fleet H
  | .event cluster e =>
    let (states, notices) := s.states.onEvent cluster e
    { s with states := states, calls := s.calls ++ [notices] }
  | .notify i =>
    match s.calls[i]? with
    | some (n :: rest) =>
      { s with
        informer := if n.handler = h then s.informer.follow n else s.informer
        calls := s.calls.set i rest }
    | _ => s
  | .found cluster =>
    if cluster ∈ s.informer.starting then
      match s.informer.found cluster (s.isReady cluster) with
      | (i, some cache) => { s with informer := i, started := (cluster, cache) :: s.started }
      | (i, none) => { s with informer := i }
    else s
  | .notFound cluster =>
    if cluster ∈ s.informer.starting then { s with informer := s.informer.notFound cluster } else s

def run (s : Fleet H) (moves : List FleetMove) : Fleet H := moves.foldl (step h) s

end

end Fleet

namespace ClusterStates

variable {H : Type}

/-- Nothing changes, or one state does and all handlers are to be told. -/
theorem onEvent_cases (s : ClusterStates H) (cluster : String) (e : ClusterEvent) :
    s.onEvent cluster e = (s, []) ∨
    ∃ new, s.onEvent cluster e = ({ s with states := s.states.insert cluster new },
      s.handlers.map fun h => ⟨h, cluster, new.isReady⟩) := by
  unfold onEvent
  cases (s.state? cluster).bind (·.onEvent e) with
  | none => exact Or.inl rfl
  | some new => exact Or.inr ⟨new, rfl⟩

theorem handlers_addHandlers (s : ClusterStates H) (handlers : List H) :
    (handlers.foldl (·.addHandler ·) s).handlers = s.handlers ++ handlers := by
  induction handlers generalizing s with
  | nil => simp
  | cons h rest ih =>
    rw [List.foldl_cons, ih]
    simp [addHandler]

end ClusterStates

namespace Informer

theorem found_ready (i : Informer) (cluster : String) : i.found cluster true =
    ({ i with
      caches := i.caches.insert cluster i.nextCache
      stopped := (i.caches.find? cluster).toList ++ i.stopped
      nextCache := i.nextCache + 1
      starting := i.starting.erase cluster }, some i.nextCache) := by
  unfold found
  simp only [if_true]
  cases i.caches.find? cluster <;> rfl

theorem clusterUnavailable_eq (i : Informer) (cluster : String) : i.clusterUnavailable cluster =
    { i with
      caches := i.caches.erase cluster
      stopped := (i.caches.find? cluster).toList ++ i.stopped } := by
  unfold clusterUnavailable
  cases hf : i.caches.find? cluster with
  | some cache => rfl
  | none =>
    have hsame : i.caches.erase cluster = i.caches := by
      ext1 c
      rw [Table.find?_erase]
      split
      · rename_i hc
        rw [← hc, hf]
      · rfl
    rw [hsame]
    rfl

/-- What it is told brings an informer no cache. -/
theorem find?_of_follow {H : Type} {i : Informer} {n : Notice H} {c : String} {k : Nat}
    (h : (i.follow n).caches.find? c = some k) : i.caches.find? c = some k := by
  unfold follow at h
  split at h
  · exact h
  · rw [clusterUnavailable_eq] at h
    simp only [Table.find?_erase] at h
    split at h
    · cases h
    · exact h

end Informer

namespace Fleet

variable {H : Type}

/-- The numbers of the caches are in order: each was given once, for one cluster, and a cache is
either the one that its cluster has or stopped. -/
structure Numbered (i : Informer) (started : List (String × Nat)) : Prop where
  given : ∀ k, k < i.nextCache ↔ ∃ c, (c, k) ∈ started
  once : ∀ c c' k, (c, k) ∈ started → (c', k) ∈ started → c = c'
  kept : ∀ c k, i.caches.find? c = some k → (c, k) ∈ started ∧ k ∉ i.stopped
  ended : ∀ c k, (c, k) ∈ started → i.caches.find? c = some k ∨ k ∈ i.stopped
  closed : ∀ k ∈ i.stopped, k < i.nextCache
  uncancelled : i.cancelled = false

namespace Numbered

variable {i : Informer} {started : List (String × Nat)}

theorem new : Numbered .new [] := by
  refine ⟨?_, ?_, ?_, ?_, ?_, rfl⟩
  · intro k
    simp [Informer.new]
  · intro c c' k hc
    cases hc
  · intro c k hc
    cases hc
  · intro c k hc
    cases hc
  · intro k hk
    cases hk

/-- Asking clusters changes no cache. -/
theorem starting (h : Numbered i started) (l : List String) :
    Numbered { i with starting := l } started :=
  ⟨h.given, h.once, h.kept, h.ended, h.closed, h.uncancelled⟩

/-- A cache that a cluster has is not the one of another cluster. -/
theorem apart (h : Numbered i started) {c c' : String} {k : Nat}
    (hk : i.caches.find? c = some k) (hk' : i.caches.find? c' = some k) : c = c' :=
  h.once c c' k (h.kept c k hk).1 (h.kept c' k hk').1

theorem lt (h : Numbered i started) {c : String} {k : Nat} (hk : i.caches.find? c = some k) :
    k < i.nextCache := (h.given k).mpr ⟨c, (h.kept c k hk).1⟩

theorem clusterUnavailable (h : Numbered i started) (cluster : String) :
    Numbered (i.clusterUnavailable cluster) started := by
  rw [i.clusterUnavailable_eq]
  refine ⟨h.given, h.once, ?_, ?_, ?_, h.uncancelled⟩
  · intro c k hc
    simp only [Table.find?_erase] at hc
    split at hc
    · cases hc
    · rename_i hne
      obtain ⟨hstarted, hrunning⟩ := h.kept c k hc
      refine ⟨hstarted, ?_⟩
      simp only [List.mem_append, Option.mem_toList, not_or]
      exact ⟨fun hk => hne (h.apart hk hc), hrunning⟩
  · intro c k hc
    simp only [Table.find?_erase, List.mem_append, Option.mem_toList]
    rcases h.ended c k hc with hk | hk
    · by_cases he : cluster = c
      · subst he
        exact Or.inr (Or.inl hk)
      · rw [if_neg he]
        exact Or.inl hk
    · exact Or.inr (Or.inr hk)
  · intro k hk
    simp only [List.mem_append, Option.mem_toList] at hk
    rcases hk with hk | hk
    · exact h.lt hk
    · exact h.closed k hk

/-- A cache takes the place of the one that its cluster had. -/
theorem found (h : Numbered i started) (cluster : String) :
    Numbered (i.found cluster true).1 ((cluster, i.nextCache) :: started) := by
  rw [i.found_ready]
  have hfresh : ∀ c, (c, i.nextCache) ∉ started := by
    intro c hc
    exact Nat.lt_irrefl _ ((h.given i.nextCache).mpr ⟨c, hc⟩)
  refine ⟨?_, ?_, ?_, ?_, ?_, h.uncancelled⟩
  · intro k
    simp only [List.mem_cons, Prod.mk.injEq]
    constructor
    · intro hk
      by_cases hlast : k = i.nextCache
      · exact ⟨cluster, Or.inl ⟨rfl, hlast⟩⟩
      · obtain ⟨c, hc⟩ := (h.given k).mp (by omega)
        exact ⟨c, Or.inr hc⟩
    · rintro ⟨c, ⟨-, rfl⟩ | hc⟩
      · exact Nat.lt_succ_self _
      · exact Nat.lt_succ_of_lt ((h.given k).mpr ⟨c, hc⟩)
  · intro c c' k hc hc'
    rcases List.mem_cons.mp hc with hc | hc
    · cases hc
      rcases List.mem_cons.mp hc' with hc' | hc'
      · cases hc'
        rfl
      · exact absurd hc' (hfresh c')
    · rcases List.mem_cons.mp hc' with hc' | hc'
      · cases hc'
        exact absurd hc (hfresh c)
      · exact h.once c c' k hc hc'
  · intro c k hc
    simp only [Table.find?_insert] at hc
    simp only [List.mem_cons, List.mem_append, Option.mem_toList, not_or]
    split at hc
    · rename_i he
      cases hc
      subst he
      refine ⟨Or.inl rfl, ?_, ?_⟩
      · intro hk
        exact Nat.lt_irrefl _ (h.lt hk)
      · intro hk
        exact Nat.lt_irrefl _ (h.closed _ hk)
    · rename_i hne
      obtain ⟨hstarted, hrunning⟩ := h.kept c k hc
      exact ⟨Or.inr hstarted, fun hk => hne (h.apart hk hc), hrunning⟩
  · intro c k hc
    simp only [Table.find?_insert, List.mem_append, Option.mem_toList]
    rcases List.mem_cons.mp hc with hc | hc
    · cases hc
      exact Or.inl (if_pos rfl)
    · rcases h.ended c k hc with hk | hk
      · by_cases he : cluster = c
        · subst he
          exact Or.inr (Or.inl hk)
        · rw [if_neg he]
          exact Or.inl hk
      · exact Or.inr (Or.inr hk)
  · intro k hk
    simp only [List.mem_append, Option.mem_toList] at hk
    rcases hk with hk | hk
    · exact Nat.lt_succ_of_lt (h.lt hk)
    · exact Nat.lt_succ_of_lt (h.closed k hk)

theorem follow {H : Type} (h : Numbered i started) (n : Notice H) :
    Numbered (i.follow n) started := by
  unfold Informer.follow
  split
  · exact h.starting _
  · exact h.clusterUnavailable n.cluster

end Numbered

/-- A handler call is still to be made. -/
def Due (s : Fleet H) (n : Notice H) : Prop := ∃ call ∈ s.calls, n ∈ call

/-- No event is under way. -/
def Quiet (s : Fleet H) : Prop := ∀ call ∈ s.calls, call = []

instance (s : Fleet H) : Decidable s.Quiet :=
  inferInstanceAs (Decidable (∀ call ∈ s.calls, call = []))

theorem Quiet.not_due {s : Fleet H} (hq : s.Quiet) (n : Notice H) : ¬ s.Due n := by
  rintro ⟨call, hcall, hn⟩
  rw [hq call hcall] at hn
  cases hn

/-- Making a call leaves all others to be made. -/
theorem due_of_set {calls : List (List (Notice H))} {i : Nat} {n m : Notice H}
    {rest : List (Notice H)} (hi : calls[i]? = some (n :: rest)) (hm : ∃ call ∈ calls, m ∈ call) :
    m = n ∨ ∃ call ∈ calls.set i rest, m ∈ call := by
  obtain ⟨call, hcall, hmem⟩ := hm
  obtain ⟨j, hj⟩ := List.mem_iff_getElem?.mp hcall
  have hlt : i < calls.length := (List.getElem?_eq_some_iff.mp hi).1
  by_cases hij : i = j
  · subst hij
    rw [hi] at hj
    cases hj
    rcases List.mem_cons.mp hmem with hmem | hmem
    · exact Or.inl hmem
    · exact Or.inr ⟨rest, List.mem_iff_getElem?.mpr ⟨i, List.getElem?_set_self hlt⟩, hmem⟩
  · refine Or.inr ⟨call, List.mem_iff_getElem?.mpr ⟨j, ?_⟩, hmem⟩
    rw [List.getElem?_set_ne hij]
    exact hj

/-- A cluster that has a cache is ready, or the informer is about to be told that it is not. -/
structure Justified (h : H) (s : Fleet H) : Prop where
  registered : h ∈ s.states.handlers
  warned : ∀ c k, s.informer.caches.find? c = some k → s.isReady c ∨ s.Due ⟨h, c, false⟩

theorem Justified.new {h : H} (clusters : List String) {handlers : List H} (hh : h ∈ handlers) :
    Justified h (new clusters handlers) := by
  refine ⟨?_, ?_⟩
  · show h ∈ (handlers.foldl (·.addHandler ·) (ClusterStates.new clusters)).handlers
    rw [ClusterStates.handlers_addHandlers]
    exact List.mem_append_right _ hh
  · intro c k hk
    cases hk

section
variable [DecidableEq H] {s : Fleet H}

/-- An event changes no state and tells nobody, or one cluster's state, and all handlers are to
be told. -/
theorem event_cases (h : H) (s : Fleet H) (cluster : String) (e : ClusterEvent) :
    s.step h (.event cluster e) = { s with calls := s.calls ++ [[]] } ∨
    ∃ new : ClusterState, s.step h (.event cluster e) =
      { s with
        states := { s.states with states := s.states.states.insert cluster new }
        calls := s.calls ++ [s.states.handlers.map fun h => ⟨h, cluster, new.isReady⟩] } := by
  unfold step
  dsimp only
  rcases s.states.onEvent_cases cluster e with he | ⟨new, he⟩
  · rw [he]
    exact Or.inl rfl
  · rw [he]
    exact Or.inr ⟨new, rfl⟩

theorem notify_cases (h : H) (s : Fleet H) (i : Nat) :
    s.step h (.notify i) = s ∨
    ∃ n rest, s.calls[i]? = some (n :: rest) ∧ s.step h (.notify i) =
      { s with
        informer := if n.handler = h then s.informer.follow n else s.informer
        calls := s.calls.set i rest } := by
  unfold step
  dsimp only
  split
  · rename_i n rest hi
    exact Or.inr ⟨n, rest, hi, rfl⟩
  · exact Or.inl rfl

/-- An answer is of use only if the cluster is ready when it comes. -/
theorem found_cases (h : H) (s : Fleet H) (cluster : String) :
    (∃ l, s.step h (.found cluster) = { s with informer := { s.informer with starting := l } }) ∨
    (s.isReady cluster ∧ s.step h (.found cluster) =
      { s with
        informer := (s.informer.found cluster true).1
        started := (cluster, s.informer.nextCache) :: s.started }) := by
  unfold step
  dsimp only
  split
  · cases hr : s.isReady cluster with
    | true =>
      rw [Informer.found_ready]
      exact Or.inr ⟨rfl, rfl⟩
    | false => exact Or.inl ⟨_, rfl⟩
  · exact Or.inl ⟨s.informer.starting, rfl⟩

theorem notFound_cases (h : H) (s : Fleet H) (cluster : String) :
    ∃ l, s.step h (.notFound cluster) =
      { s with informer := { s.informer with starting := l } } := by
  unfold step
  dsimp only
  split
  · exact ⟨_, rfl⟩
  · exact ⟨s.informer.starting, rfl⟩

theorem Numbered.step (hs : Numbered s.informer s.started) (h : H) (m : FleetMove) :
    Numbered (s.step h m).informer (s.step h m).started := by
  cases m with
  | event cluster e =>
    rcases event_cases h s cluster e with he | ⟨new, he⟩
    · rw [he]
      exact hs
    · rw [he]
      exact hs
  | notify i =>
    rcases notify_cases h s i with he | ⟨n, rest, -, he⟩
    · rw [he]
      exact hs
    · rw [he]
      dsimp only
      split
      · exact hs.follow n
      · exact hs
  | found cluster =>
    rcases found_cases h s cluster with ⟨l, he⟩ | ⟨-, he⟩
    · rw [he]
      exact hs.starting l
    · rw [he]
      exact hs.found cluster
  | notFound cluster =>
    obtain ⟨l, he⟩ := notFound_cases h s cluster
    rw [he]
    exact hs.starting l

namespace Justified

variable {h : H}

theorem event (hj : Justified h s) (cluster : String) (e : ClusterEvent) :
    Justified h (s.step h (.event cluster e)) := by
  have hdue {t : Fleet H} {call : List (Notice H)} (ht : t.calls = s.calls ++ [call]) (n : Notice H)
      (hn : s.Due n) : t.Due n := by
    obtain ⟨call, hcall, hmem⟩ := hn
    exact ⟨call, ht ▸ List.mem_append_left _ hcall, hmem⟩
  rcases event_cases h s cluster e with he | ⟨new, he⟩
  · rw [he]
    exact ⟨hj.registered, fun c k hk => (hj.warned c k hk).imp_right (hdue rfl _)⟩
  · rw [he]
    refine ⟨hj.registered, ?_⟩
    intro c k hk
    by_cases hc : cluster = c
    · subst hc
      cases hnew : new.isReady with
      | true =>
        left
        simp [isReady, ClusterStates.state?, hnew]
      | false =>
        -- the informer is about to be told of this very change
        right
        exact ⟨_, List.mem_append_right _ List.mem_cons_self,
          List.mem_map.mpr ⟨h, hj.registered, rfl⟩⟩
    · rcases hj.warned c k hk with hr | hd
      · left
        simpa [isReady, ClusterStates.state?, hc] using hr
      · exact Or.inr (hdue rfl _ hd)

theorem notify (hj : Justified h s) (i : Nat) : Justified h (s.step h (.notify i)) := by
  rcases notify_cases h s i with he | ⟨n, rest, hi, he⟩
  · rw [he]
    exact hj
  · rw [he]
    refine ⟨hj.registered, ?_⟩
    intro c k hk
    dsimp only at hk
    by_cases hn : n = ⟨h, c, false⟩
    · -- told that the cluster is not ready, the informer keeps no cache of it
      subst hn
      simp [Informer.follow, Informer.clusterUnavailable_eq] at hk
    · have hold : s.informer.caches.find? c = some k := by
        split at hk
        · exact Informer.find?_of_follow hk
        · exact hk
      rcases hj.warned c k hold with hr | hd
      · exact Or.inl hr
      · rcases due_of_set hi hd with hm | ht
        · exact absurd hm.symm hn
        · exact Or.inr ht

theorem found (hj : Justified h s) (cluster : String) :
    Justified h (s.step h (.found cluster)) := by
  rcases found_cases h s cluster with ⟨l, he⟩ | ⟨hr, he⟩
  · rw [he]
    exact ⟨hj.registered, hj.warned⟩
  · rw [he, Informer.found_ready]
    refine ⟨hj.registered, ?_⟩
    intro c k hk
    by_cases hc : cluster = c
    · subst hc
      exact Or.inl hr
    · simp only [Table.find?_insert, if_neg hc] at hk
      exact hj.warned c k hk

theorem step (hj : Justified h s) (m : FleetMove) : Justified h (s.step h m) := by
  cases m with
  | event cluster e => exact hj.event cluster e
  | notify i => exact hj.notify i
  | found cluster => exact hj.found cluster
  | notFound cluster =>
    obtain ⟨l, he⟩ := notFound_cases h s cluster
    rw [he]
    exact ⟨hj.registered, hj.warned⟩

end Justified

theorem run_invariants {h : H} (hj : Justified h s) (hs : Numbered s.informer s.started)
    (moves : List FleetMove) :
    Justified h (s.run h moves) ∧
      Numbered (s.run h moves).informer (s.run h moves).started := by
  induction moves generalizing s with
  | nil => exact ⟨hj, hs⟩
  | cons m rest ih => exact ih (hj.step m) (hs.step h m)

end

theorem exists_ready_of_isReady {s : Fleet H} {c : String} (hr : s.isReady c) :
    ∃ since, s.states.state? c = some (.ready since) := by
  obtain ⟨state, hstate, hready⟩ := (Option.any_eq_true _ _).mp hr
  cases state with
  | ready since => exact ⟨since, hstate⟩
  | unavailable => cases hready
  | notReady since => cases hready

section
variable [DecidableEq H]

/-- When no event is under way, the caches of an informer are those of ready clusters, each of
its own; every cluster has at most one cache that was not stopped, and a cache that the informer
has no more was stopped. -/
theorem caches_of_ready_clusters (clusters : List String) (handlers : List H) (h : H)
    (hh : h ∈ handlers) (moves : List FleetMove)
    (hq : ((new clusters handlers).run h moves).Quiet) :
    let s := (new clusters handlers).run h moves
    (∀ c k, s.informer.caches.find? c = some k →
      (∃ since, s.states.state? c = some (.ready since)) ∧ (c, k) ∈ s.started ∧
        s.informer.isStopped k = false) ∧
    s.informer.caches.keys.Nodup ∧
    (∀ c k k', (c, k) ∈ s.started → (c, k') ∈ s.started → s.informer.isStopped k = false →
      s.informer.isStopped k' = false → k = k') ∧
    (∀ c k, (c, k) ∈ s.started →
      s.informer.caches.find? c = some k ∨ s.informer.isStopped k = true) := by
  intro s
  obtain ⟨hj, hs⟩ := run_invariants (Justified.new clusters hh) Numbered.new moves
  have hstopped : ∀ k, s.informer.isStopped k = true ↔ k ∈ s.informer.stopped := by
    intro k
    unfold Informer.isStopped
    rw [hs.uncancelled]
    simp
  have hended : ∀ c k, (c, k) ∈ s.started →
      s.informer.caches.find? c = some k ∨ s.informer.isStopped k = true := by
    intro c k hk
    exact (hs.ended c k hk).imp_right (hstopped k).mpr
  refine ⟨?_, Table.nodup_entries s.informer.caches.sorted, ?_, hended⟩
  · intro c k hk
    obtain ⟨hstarted, hrunning⟩ := hs.kept c k hk
    refine ⟨?_, hstarted, ?_⟩
    · rcases hj.warned c k hk with hr | hd
      · exact exists_ready_of_isReady hr
      · exact absurd hd (hq.not_due _)
    · exact Bool.eq_false_iff.mpr fun hk => hrunning ((hstopped k).mp hk)
  · intro c k k' hk hk' hr hr'
    rcases hended c k hk with hf | hf
    · rcases hended c k' hk' with hf' | hf'
      · exact Option.some.inj (hf.symm.trans hf')
      · rw [hr'] at hf'
        cases hf'
    · rw [hr] at hf
      cases hf

/-- A cluster goes away and comes back while it is asked; both answers come before the informer,
second of two handlers, hears that it had gone. -/
def flapping : Fleet String :=
  run "informer" (new ["east", "west"] ["log", "informer"])
    [.event "east" (.healthy 1), .notify 0, .notify 0,
      .event "east" (.unhealthy 2), .event "east" (.healthy 3), .notify 2, .notify 2,
      .found "east", .found "east", .notify 1, .notify 1,
      .event "west" (.healthy 4), .notify 3, .notify 3, .found "west"]

theorem caches_of_flapping_clusters :
    "informer" ∈ ["log", "informer"] ∧ flapping.Quiet ∧
    flapping.started = [("west", 2), ("east", 1), ("east", 0)] ∧
    (∃ since, flapping.states.state? "west" = some (.ready since)) ∧
    flapping.informer.isStopped 2 = false ∧ flapping.informer.isStopped 1 = true ∧
    flapping.informer.isStopped 0 = true := by
  have hh : "informer" ∈ ["log", "informer"] := by decide
  have hq : flapping.Quiet := by decide +kernel
  obtain ⟨hkept, -, -, hended⟩ := caches_of_ready_clusters _ _ _ hh _ hq
  obtain ⟨hready, -, hrunning⟩ := hkept "west" 2 (by decide +kernel)
  refine ⟨hh, hq, by decide +kernel, hready, hrunning, ?_, ?_⟩
  · exact (hended "east" 1 (by decide +kernel)).resolve_left (by decide +kernel)
  · exact (hended "east" 0 (by decide +kernel)).resolve_left (by decide +kernel)

end

end Fleet

end FedTrack
