import FedTrack.Proofs.Member.Fleet

namespace FedTrack

/-- A fleet, and what came of asking each cluster since it became ready last. -/
structure Lookout (H : Type) where
  fleet : Fleet H
  /-- It told how it serves the type. -/
  told : String → Bool
  /-- It failed to tell. -/
  failed : String → Bool

/-- Whether the caches of all these clusters have synced, where `synced` tells which caches have. -/
def Informer.areSynced (i : Informer) (synced : Nat → Bool) (clusters : List String) : Bool :=
  clusters.all fun c => (i.caches.find? c).any synced

namespace Fleet

variable {H : Type}

/-- Whether an event makes a cluster ready that was not. -/
def makesReady (s : Fleet H) (cluster : String) (e : ClusterEvent) : Bool :=
  ((s.states.state? cluster).bind (·.onEvent e)).any (·.isReady)

/-- An event comes when all handlers have been told of earlier events of its cluster. -/
def Admits (s : Fleet H) : FleetMove → Prop
  | .event cluster _ => ∀ call ∈ s.calls, ∀ n ∈ call, n.cluster ≠ cluster
  | _ => True

instance (s : Fleet H) (m : FleetMove) : Decidable (s.Admits m) := by
  cases m with
  | event cluster e =>
    exact inferInstanceAs (Decidable (∀ call ∈ s.calls, ∀ n ∈ call, n.cluster ≠ cluster))
  | notify i => exact instDecidableTrue
  | found cluster => exact instDecidableTrue
  | notFound cluster => exact instDecidableTrue

section
variable [DecidableEq H] (h : H)

/-- The events of each cluster come one after the other. -/
def Orderly (s : Fleet H) : List FleetMove → Prop
  | [] => True
  | m :: rest => s.Admits m ∧ Orderly (s.step h m) rest

instance decidableOrderly (s : Fleet H) : (moves : List FleetMove) → Decidable (s.Orderly h moves)
  | [] => instDecidableTrue
  | m :: rest => @instDecidableAnd _ _ inferInstance (decidableOrderly (s.step h m) rest)

end

end Fleet

namespace Lookout

variable {H : Type}

def new (clusters : List String) (handlers : List H) : Lookout H :=
  ⟨.new clusters handlers, fun _ => false, fun _ => false⟩

section
variable [DecidableEq H] (h : H)

def step (l : Lookout H) (m : FleetMove) : Lookout H :=
  let fleet := l.fleet.step h m
  match m with
  | .event cluster e =>
    if l.fleet.makesReady cluster e then
      ⟨fleet, fun c => if c = cluster then false else l.told c,
        fun c => if c = cluster then false else l.failed c⟩
    else { l with fleet := fleet }
  | .notify _ => { l with fleet := fleet }
  | .found cluster =>
    if cluster ∈ l.fleet.informer.starting then
      { l with fleet := fleet, told := fun c => if c = cluster then true else l.told c }
    else l
  | .notFound cluster =>
    if cluster ∈ l.fleet.informer.starting then
      { l with fleet := fleet, failed := fun c => if c = cluster then true else l.failed c }
    else l

def run (l : Lookout H) (moves : List FleetMove) : Lookout H := moves.foldl (step h) l

end

end Lookout

theorem ClusterState.isReady_of_onEvent {s new : ClusterState} {e : ClusterEvent}
    (h : s.onEvent e = some new) : new.isReady = !s.isReady := by
  unfold onEvent at h
  split at h <;> cases h <;> rfl

theorem ClusterStates.mem_ready {H : Type} {s : ClusterStates H} {c : String} :
    c ∈ s.ready ↔ (s.state? c).any (·.isReady) = true := by
  simp only [ready, state?, List.mem_map, List.mem_filter, Option.any_eq_true,
    Table.find?_eq_some, Prod.exists, exists_and_right, exists_eq_right]

theorem ClusterStates.states_addHandlers {H : Type} (s : ClusterStates H) (handlers : List H) :
    (handlers.foldl (·.addHandler ·) s).states = s.states := by
  induction handlers generalizing s with
  | nil => rfl
  | cons h rest ih =>
    rw [List.foldl_cons, ih]
    rfl

namespace Informer

variable {H : Type} {i : Informer} {n : Notice H} {c : String}

/-- Being told of other clusters, or that it is ready, does not cost a cluster its cache. -/
theorem find?_follow (h : n.cluster = c → n.available ≠ false) :
    (i.follow n).caches.find? c = i.caches.find? c := by
  unfold follow
  split
  · rfl
  · rename_i hn
    have hc : n.cluster ≠ c := fun hc => h hc (Bool.eq_false_iff.mpr hn)
    rw [clusterUnavailable_eq, Table.find?_erase, if_neg hc]

theorem mem_starting_follow (h : c ∈ i.starting) : c ∈ (i.follow n).starting := by
  unfold follow
  split
  · exact List.mem_append_left _ h
  · rw [clusterUnavailable_eq]
    exact h

end Informer

namespace Fleet

variable {H : Type}

theorem isReady_new (clusters : List String) (handlers : List H) (c : String) :
    (new clusters handlers).isReady c = false := by
  have hstate := Table.find?_foldl_insert
    (clusters.map fun c => (c, ClusterState.unavailable)) .empty c
  simp only [isReady, new, ClusterStates.state?, ClusterStates.states_addHandlers]
  rcases hstate with ⟨-, hf⟩ | ⟨state, hmem, hf⟩
  · exact congrArg (Option.any _) hf
  · obtain ⟨c', -, he⟩ := List.mem_map.mp hmem
    cases he
    exact congrArg (Option.any _) hf

theorem mem_ready {s : Fleet H} {c : String} : c ∈ s.states.ready ↔ s.isReady c = true :=
  ClusterStates.mem_ready

/-- A call still to be made after another one was to be made before. -/
theorem due_of_due_set {calls : List (List (Notice H))} {i : Nat} {n m : Notice H}
    {rest : List (Notice H)} (hi : calls[i]? = some (n :: rest))
    (hm : ∃ call ∈ calls.set i rest, m ∈ call) : ∃ call ∈ calls, m ∈ call := by
  obtain ⟨call, hcall, hmem⟩ := hm
  rcases List.mem_or_eq_of_mem_set hcall with hcall | rfl
  · exact ⟨call, hcall, hmem⟩
  · exact ⟨n :: call, List.mem_of_getElem? hi, List.mem_cons_of_mem _ hmem⟩

section
variable [DecidableEq H] (h : H) (s : Fleet H)

@[simp] theorem states_found (cluster : String) : (s.step h (.found cluster)).states = s.states := by
  rcases found_cases h s cluster with ⟨l, he⟩ | ⟨-, he⟩ <;> rw [he]

@[simp] theorem calls_found (cluster : String) : (s.step h (.found cluster)).calls = s.calls := by
  rcases found_cases h s cluster with ⟨l, he⟩ | ⟨-, he⟩ <;> rw [he]

theorem starting_found (cluster : String) :
    (s.step h (.found cluster)).informer.starting = s.informer.starting.erase cluster := by
  unfold step
  dsimp only
  split
  · cases hr : s.isReady cluster with
    | true => rw [Informer.found_ready]
    | false => rfl
  · rename_i hc
    exact (List.erase_of_not_mem hc).symm

/-- An answer brings a ready cluster its cache. -/
theorem find?_found {s : Fleet H} {cluster : String} (hc : cluster ∈ s.informer.starting)
    (c : String) : (s.step h (.found cluster)).informer.caches.find? c =
      if s.isReady cluster = true ∧ cluster = c then some s.informer.nextCache
      else s.informer.caches.find? c := by
  unfold step
  simp only [if_pos hc]
  cases hr : s.isReady cluster with
  | true =>
    rw [Informer.found_ready]
    simp
  | false => simp [Informer.found]

end

end Fleet

namespace Lookout

open Fleet

variable {H : Type}

/-- Calls still to be made tell the present state of their cluster. A ready cluster has a cache if
it told how it serves the type, and unless it did or failed to it is being asked, or the informer
is about to hear of it. -/
structure Attended (h : H) (l : Lookout H) : Prop where
  current : ∀ n, l.fleet.Due n → n.available = l.fleet.isReady n.cluster
  served : ∀ c, l.fleet.isReady c = true →
    ((∃ k, l.fleet.informer.caches.find? c = some k) ↔ l.told c = true)
  asked : ∀ c, l.fleet.isReady c = true → l.told c = true ∨ l.failed c = true ∨
    c ∈ l.fleet.informer.starting ∨ l.fleet.Due ⟨h, c, true⟩

theorem Attended.new (h : H) (clusters : List String) (handlers : List H) :
    Attended h (.new clusters handlers) := by
  refine ⟨?_, ?_, ?_⟩
  · rintro n ⟨call, hcall, -⟩
    cases hcall
  · intro c _
    simp [Lookout.new, Fleet.new, Informer.new]
  · intro c hc
    rw [Lookout.new, isReady_new] at hc
    cases hc

section
variable [DecidableEq H] {h : H} {l : Lookout H}

theorem fleet_step (m : FleetMove) : (l.step h m).fleet = l.fleet.step h m := by
  cases m with
  | event cluster e =>
    unfold step
    dsimp only
    split <;> rfl
  | notify i => rfl
  | found cluster =>
    unfold step Fleet.step
    dsimp only
    split <;> rfl
  | notFound cluster =>
    unfold step Fleet.step
    dsimp only
    split <;> rfl

theorem fleet_run (moves : List FleetMove) : (l.run h moves).fleet = l.fleet.run h moves := by
  induction moves generalizing l with
  | nil => rfl
  | cons m rest ih =>
    show (run h (l.step h m) rest).fleet = (l.fleet.step h m).run h rest
    rw [ih, fleet_step]

/-- An event is without effect, or its cluster becomes ready or stops being ready, and all handlers
are to be told. -/
theorem event_cases (h : H) (l : Lookout H) (cluster : String) (e : ClusterEvent) :
    l.step h (.event cluster e) = { l with fleet.calls := l.fleet.calls ++ [[]] } ∨
    ∃ new : ClusterState, new.isReady = !l.fleet.isReady cluster ∧
      l.step h (.event cluster e) =
        { fleet := { l.fleet with
            states := { l.fleet.states with
              states := l.fleet.states.states.insert cluster new }
            calls := l.fleet.calls ++
              [l.fleet.states.handlers.map fun h => ⟨h, cluster, new.isReady⟩] }
          told := fun c => if new.isReady = true ∧ c = cluster then false else l.told c
          failed := fun c => if new.isReady = true ∧ c = cluster then false else l.failed c } := by
  unfold step Fleet.step makesReady
  dsimp only
  cases hb : (l.fleet.states.state? cluster).bind (·.onEvent e) with
  | none => simp [ClusterStates.onEvent, hb]
  | some new =>
    obtain ⟨state, hstate, hnew⟩ := Option.bind_eq_some_iff.mp hb
    have hready : new.isReady = !l.fleet.isReady cluster := by
      rw [ClusterState.isReady_of_onEvent hnew, isReady, hstate]
      rfl
    refine Or.inr ⟨new, hready, ?_⟩
    cases hr : new.isReady <;> simp [ClusterStates.onEvent, hb, hr]

namespace Attended

theorem event (ha : Attended h l) (hj : Justified h l.fleet) {cluster : String} {e : ClusterEvent}
    (hadmits : l.fleet.Admits (.event cluster e)) : Attended h (l.step h (.event cluster e)) := by
  rcases event_cases h l cluster e with he | ⟨new, hnew, he⟩
  · have hdue (n : Notice H) : (l.step h (.event cluster e)).fleet.Due n ↔ l.fleet.Due n := by
      rw [he]
      simp [Due, or_and_right, exists_or]
    refine ⟨?_, ?_, ?_⟩
    · intro n hn
      rw [hdue] at hn
      rw [he]
      exact ha.current n hn
    · rw [he]
      exact ha.served
    · intro c hc
      rw [hdue, he]
      rw [he] at hc
      exact ha.asked c hc
  · rw [he]
    have hready (c : String) : Fleet.isReady { l.fleet with
        states := { l.fleet.states with states := l.fleet.states.states.insert cluster new }
        calls := l.fleet.calls ++
          [l.fleet.states.handlers.map fun h => ⟨h, cluster, new.isReady⟩] } c =
        if cluster = c then new.isReady else l.fleet.isReady c := by
      simp only [isReady, ClusterStates.state?, Table.find?_insert]
      split <;> rfl
    refine ⟨?_, ?_, ?_⟩
    · rintro n ⟨call, hcall, hn⟩
      rw [hready]
      rcases List.mem_append.mp hcall with hcall | hcall
      · rw [if_neg (hadmits call hcall n hn).symm]
        exact ha.current n ⟨call, hcall, hn⟩
      · rw [List.mem_singleton.mp hcall] at hn
        obtain ⟨h', -, rfl⟩ := List.mem_map.mp hn
        exact (if_pos rfl).symm
    · intro c hc
      rw [hready] at hc
      by_cases hcluster : cluster = c
      · subst hcluster
        rw [if_pos rfl] at hc
        -- it was not ready before, and the informer knows
        have hnone : ¬ ∃ k, l.fleet.informer.caches.find? cluster = some k := by
          rintro ⟨k, hk⟩
          rcases hj.warned cluster k hk with hr | ⟨call, hcall, hn⟩
          · rw [hc, hr] at hnew
            cases hnew
          · exact hadmits call hcall _ hn rfl
        simp [hnone, hc]
      · rw [if_neg hcluster] at hc
        have hne : c ≠ cluster := fun h => hcluster h.symm
        simpa [hne] using ha.served c hc
    · intro c hc
      rw [hready] at hc
      by_cases hcluster : cluster = c
      · subst hcluster
        rw [if_pos rfl] at hc
        refine Or.inr (Or.inr (Or.inr ⟨_, List.mem_append_right _ List.mem_cons_self, ?_⟩))
        rw [← hc]
        exact List.mem_map.mpr ⟨h, hj.registered, rfl⟩
      · rw [if_neg hcluster] at hc
        have hne : c ≠ cluster := fun h => hcluster h.symm
        simp only [hne, and_false, if_false]
        refine (ha.asked c hc).imp_right (Or.imp_right (Or.imp_right ?_))
        rintro ⟨call, hcall, hn⟩
        exact ⟨call, List.mem_append_left _ hcall, hn⟩

theorem notify (ha : Attended h l) (i : Nat) : Attended h (l.step h (.notify i)) := by
  have hstep : l.step h (.notify i) = { l with fleet := l.fleet.step h (.notify i) } := rfl
  rw [hstep]
  rcases notify_cases h l.fleet i with he | ⟨n, rest, hi, he⟩
  · rw [he]
    exact ha
  · rw [he]
    have hn : l.fleet.Due n := ⟨_, List.mem_of_getElem? hi, List.mem_cons_self⟩
    refine ⟨fun m hm => ha.current m (due_of_due_set hi hm), ?_, ?_⟩
    · intro c hc
      rw [← ha.served c hc]
      dsimp only
      split
      · rw [Informer.find?_follow]
        intro hcluster hgone
        rw [ha.current n hn, hcluster] at hgone
        exact Bool.eq_false_iff.mp hgone hc
      · rfl
    · intro c hc
      rcases ha.asked c hc with ht | hf | hs | hd
      · exact Or.inl ht
      · exact Or.inr (Or.inl hf)
      · refine Or.inr (Or.inr (Or.inl ?_))
        dsimp only
        split
        · exact Informer.mem_starting_follow hs
        · exact hs
      · rcases due_of_set hi hd with rfl | hd
        · refine Or.inr (Or.inr (Or.inl ?_))
          simp [Informer.follow, Informer.clusterAvailable]
        · exact Or.inr (Or.inr (Or.inr hd))

theorem found (ha : Attended h l) (cluster : String) :
    Attended h (l.step h (.found cluster)) := by
  unfold step
  dsimp only
  split
  · rename_i hcluster
    have hready (c : String) : (l.fleet.step h (.found cluster)).isReady c = l.fleet.isReady c := by
      simp only [isReady, states_found]
    refine ⟨?_, ?_, ?_⟩
    · intro n hn
      rw [hready]
      rw [Due, calls_found] at hn
      exact ha.current n hn
    · intro c hc
      rw [hready] at hc
      rw [find?_found h hcluster]
      by_cases he : c = cluster
      · subst he
        simp [hc]
      · have hne : cluster ≠ c := fun h => he h.symm
        simpa [he, hne] using ha.served c hc
    · intro c hc
      rw [hready] at hc
      rw [starting_found, Due, calls_found]
      by_cases he : c = cluster
      · subst he
        exact Or.inl (if_pos rfl)
      · simpa [he, List.mem_erase_of_ne, Due] using ha.asked c hc
  · exact ha

theorem notFound (ha : Attended h l) (cluster : String) :
    Attended h (l.step h (.notFound cluster)) := by
  unfold step Fleet.step
  dsimp only
  split
  · refine ⟨ha.current, ha.served, ?_⟩
    intro c hc
    by_cases he : c = cluster
    · subst he
      exact Or.inr (Or.inl (if_pos rfl))
    · simpa [he, Informer.notFound, List.mem_erase_of_ne, Due] using ha.asked c hc
  · exact ha

theorem step (ha : Attended h l) (hj : Justified h l.fleet) {m : FleetMove}
    (hadmits : l.fleet.Admits m) : Attended h (l.step h m) := by
  cases m with
  | event cluster e => exact ha.event hj hadmits
  | notify i => exact ha.notify i
  | found cluster => exact ha.found cluster
  | notFound cluster => exact ha.notFound cluster

theorem run (ha : Attended h l) (hj : Justified h l.fleet) {moves : List FleetMove}
    (horderly : l.fleet.Orderly h moves) : Attended h (l.run h moves) := by
  induction moves generalizing l with
  | nil => exact ha
  | cons m rest ih =>
    obtain ⟨hadmits, hrest⟩ := horderly
    rw [← fleet_step] at hrest
    refine ih (ha.step hj hadmits) ?_ hrest
    rw [fleet_step]
    exact hj.step m

end Attended

/-- When no event is under way and no cluster is being asked, a ready cluster has a cache exactly if
it told how it serves the type since it became ready; so it has if it did not fail to since. Only
if all ready clusters did can their caches all be synced. -/
theorem watched_iff_told (clusters : List String) (handlers : List H) (h : H) (hh : h ∈ handlers)
    (moves : List FleetMove) (horderly : (Fleet.new clusters handlers).Orderly h moves)
    (hq : ((Fleet.new clusters handlers).run h moves).Quiet)
    (hidle : ((Fleet.new clusters handlers).run h moves).informer.starting = []) :
    let l := (new clusters handlers).run h moves
    l.fleet = (Fleet.new clusters handlers).run h moves ∧
    (∀ c ∈ l.fleet.states.ready,
      ((∃ k, l.fleet.informer.caches.find? c = some k) ↔ l.told c = true) ∧
      (l.failed c = false → ∃ k, l.fleet.informer.caches.find? c = some k)) ∧
    ((∃ synced, l.fleet.informer.areSynced synced l.fleet.states.ready = true) ↔
      ∀ c ∈ l.fleet.states.ready, l.told c = true) := by
  intro l
  have hfleet : l.fleet = (Fleet.new clusters handlers).run h moves := fleet_run moves
  have ha : Attended h l := (Attended.new h clusters handlers).run (Justified.new clusters hh) horderly
  rw [← hfleet] at hq hidle
  have hserved : ∀ c ∈ l.fleet.states.ready,
      ((∃ k, l.fleet.informer.caches.find? c = some k) ↔ l.told c = true) :=
    fun c hc => ha.served c (mem_ready.mp hc)
  refine ⟨hfleet, ?_, ?_⟩
  · intro c hc
    refine ⟨hserved c hc, fun hf => (hserved c hc).mpr ?_⟩
    rcases ha.asked c (mem_ready.mp hc) with ht | ht | hs | hd
    · exact ht
    · rw [hf] at ht
      cases ht
    · rw [hidle] at hs
      cases hs
    · exact absurd hd (hq.not_due _)
  · constructor
    · rintro ⟨synced, hsynced⟩ c hc
      have hcache := List.all_eq_true.mp hsynced c hc
      obtain ⟨k, hk, -⟩ := (Option.any_eq_true _ _).mp hcache
      exact (hserved c hc).mp ⟨k, hk⟩
    · intro htold
      refine ⟨fun _ => true, List.all_eq_true.mpr fun c hc => ?_⟩
      obtain ⟨k, hk⟩ := (hserved c hc).mpr (htold c hc)
      rw [hk]
      rfl

end

/-- The first cluster fails to tell how it serves the type, and nobody asks it again. -/
def unanswered : List FleetMove :=
  [.event "east" (.healthy 1), .notify 0, .notify 0, .notFound "east",
    .event "west" (.healthy 1), .notify 1, .notify 1, .found "west", .event "east" (.healthy 11)]

theorem watched_iff_told_sample :
    let s := (Fleet.new ["east", "west"] ["log", "informer"]).run "informer" unanswered
    s.states.ready = ["east", "west"] ∧ s.informer.caches.find? "east" = none ∧
    (∃ k, s.informer.caches.find? "west" = some k) ∧
    ∀ synced, s.informer.areSynced synced s.states.ready = false := by
  intro s
  have hready : s.states.ready = ["east", "west"] := by decide +kernel
  have htold : ((new ["east", "west"] ["log", "informer"]).run "informer" unanswered).told "east" =
      false := by decide +kernel
  obtain ⟨hfleet, hcaches, hsynced⟩ := watched_iff_told ["east", "west"] ["log", "informer"]
    "informer" (by decide) unanswered (by decide +kernel) (by decide +kernel) (by decide +kernel)
  rw [hfleet] at hcaches hsynced
  have heast : "east" ∈ s.states.ready := by simp [hready]
  have hwest : "west" ∈ s.states.ready := by simp [hready]
  refine ⟨hready, ?_, (hcaches "west" hwest).2 (by decide +kernel), ?_⟩
  · have hnone := (not_congr (hcaches "east" heast).1).mpr (Bool.eq_false_iff.mp htold)
    exact Option.eq_none_iff_forall_ne_some.mpr fun k hk => hnone ⟨k, hk⟩
  · intro synced
    apply Bool.eq_false_iff.mpr
    intro hs
    have hall := hsynced.mp ⟨synced, hs⟩ "east" heast
    rw [htold] at hall
    cases hall

end Lookout

end FedTrack
