import FedTrack.Proofs.Watch.Mirror
import Mathlib.Data.List.Induction

namespace FedTrack

/-- What a cache gets to see: the events of a watch, or that a watch has failed and another one
begins. -/
inductive FeedEvent
  | event (e : WatchEvent)
  | restart

namespace FeedEvent

/-- The end of a listing. -/
def completes : FeedEvent → Bool
  | .event .listingDone => true
  | _ => false

/-- Part of a listing before its end, or the end of a watch. -/
def Lists : FeedEvent → Prop
  | .event .listing | .event (.listed _) | .restart => True
  | _ => False

end FeedEvent

/-- A listing without its end. -/
def opening (l : List Object) : List FeedEvent :=
  .event .listing :: l.map fun o => .event (.listed o)

theorem lists_opening (l : List Object) : ∀ e ∈ opening l, e.Lists := by
  intro e he
  rcases List.mem_cons.mp he with rfl | he
  · trivial
  · obtain ⟨o, -, rfl⟩ := List.mem_map.mp he
    trivial

namespace WatchedCache

def feed (c : WatchedCache) : FeedEvent → WatchedCache × List Name
  | .event e => c.handle e
  | .restart => (c.restart, [])

/-- The cache after the events, and the names published for them. -/
def follow (c : WatchedCache) : List FeedEvent → WatchedCache × List Name
  | [] => (c, [])
  | e :: rest =>
    let (c, names) := c.feed e
    let (c, more) := follow c rest
    (c, names ++ more)

variable {c : WatchedCache}

theorem follow_append (c : WatchedCache) (events later : List FeedEvent) :
    c.follow (events ++ later) =
      (((c.follow events).1.follow later).1,
        (c.follow events).2 ++ ((c.follow events).1.follow later).2) := by
  induction events generalizing c with
  | nil => rfl
  | cons e rest ih =>
    have hstep (l : List FeedEvent) : c.follow (e :: l) =
        (((c.feed e).1.follow l).1, (c.feed e).2 ++ ((c.feed e).1.follow l).2) := rfl
    rw [List.cons_append, hstep, hstep, ih, List.append_assoc]

/-- Without failures the events are handled one after the other. -/
theorem follow_events (c : WatchedCache) (events : List WatchEvent) :
    c.follow (events.map .event) = c.handleAll events := by
  induction events generalizing c with
  | nil => rfl
  | cons e rest ih => simp only [List.map_cons, follow, feed, handleAll, ih]

theorem follow_of_lists {events : List FeedEvent} (h : ∀ e ∈ events, e.Lists) :
    (c.follow events).1.cache = c.cache ∧ (c.follow events).2 = [] := by
  induction events generalizing c with
  | nil => exact ⟨rfl, rfl⟩
  | cons e rest ih =>
    have hfeed : (c.feed e).1.cache = c.cache ∧ (c.feed e).2 = [] := by
      have he := h e List.mem_cons_self
      cases e with
      | restart => exact ⟨rfl, rfl⟩
      | event e =>
        cases e with
        | listing => exact ⟨rfl, rfl⟩
        | listed o => exact ⟨rfl, rfl⟩
        | listingDone => exact he.elim
        | applied o => exact he.elim
        | deleted o => exact he.elim
    obtain ⟨hcache, hnames⟩ := ih (c := (c.feed e).1)
      fun e' he' => h e' (List.mem_cons_of_mem _ he')
    constructor
    · exact hcache.trans hfeed.1
    · show (c.feed e).2 ++ ((c.feed e).1.follow rest).2 = []
      rw [hfeed.2, hnames, List.append_nil]

theorem synced_feed (e : FeedEvent) :
    (c.feed e).1.cache.synced = (c.cache.synced || e.completes) := by
  cases e with
  | restart => exact (Bool.or_false _).symm
  | event e =>
    cases e with
    | listingDone => exact (Bool.or_true _).symm
    | listing => exact (Bool.or_false _).symm
    | listed o => exact (Bool.or_false _).symm
    | applied o => exact (Bool.or_false _).symm
    | deleted o => exact (Bool.or_false _).symm

theorem synced_follow (events : List FeedEvent) :
    (c.follow events).1.cache.synced = (c.cache.synced || events.any FeedEvent.completes) := by
  induction events generalizing c with
  | nil => exact (Bool.or_false _).symm
  | cons e rest ih =>
    show ((c.feed e).1.follow rest).1.cache.synced = _
    rw [ih, synced_feed, List.any_cons, Bool.or_assoc]

/-- The listed objects by name; of objects of one name the last one counts. -/
def gather (l : List Object) : Table Name Object := l.foldl (fun t o => t.insert o.name o) .empty

theorem find?_gather (l : List Object) (n : Name) :
    (gather l).find? n = (l.filter fun o => o.name = n).getLast? := by
  have h := Table.find?_foldl_insertIf Object.name (fun _ => true) l .empty n
  simpa [gather] using h

theorem follow_opening (c : WatchedCache) (l : List Object) :
    c.follow (opening l) = ({ c with listing := some (gather l) }, []) := by
  induction l using List.reverseRecOn with
  | nil => rfl
  | append_singleton l o ih =>
    have hsplit : opening (l ++ [o]) = opening l ++ [.event (.listed o)] := by
      rw [opening, List.map_append]
      rfl
    have hgather : gather (l ++ [o]) = (gather l).insert o.name o := List.foldl_append
    rw [hsplit, follow_append, ih, hgather]
    rfl

/-- A listing that is cut off leaves no trace in all that follows. -/
theorem follow_cut {e : FeedEvent} (he : e = .restart ∨ e = .event .listing) (l : List Object)
    (later : List FeedEvent) : c.follow (opening l ++ e :: later) = c.follow (e :: later) := by
  rw [follow_append, follow_opening]
  rcases he with rfl | rfl
  · rfl
  · rfl

theorem follow_listingDone (c : WatchedCache) (l : List Object) :
    c.follow (opening l ++ [.event .listingDone]) =
      (⟨⟨gather l, true⟩, none⟩, vanished c.cache (gather l) ++ changed c.cache (gather l)) := by
  rw [follow_append, follow_opening]
  exact congrArg (Prod.mk _) (List.append_nil _)

theorem mem_changed {c : ObjectCache} {loaded : Table Name Object} {n : Name} :
    n ∈ changed c loaded ↔ ∃ o, loaded.find? n = some o ∧ ∀ old, c.find? n = some old →
      old.metadata.resourceVersion ≠ o.metadata.resourceVersion := by
  have hdiffers (o : Object) : differs c n o = true ↔ ∀ old, c.find? n = some old →
      old.metadata.resourceVersion ≠ o.metadata.resourceVersion := by
    unfold differs
    cases c.find? n <;> simp
  rw [changed, List.mem_map]
  constructor
  · rintro ⟨⟨m, o⟩, he, rfl⟩
    obtain ⟨hm, hd⟩ := List.mem_filter.mp he
    exact ⟨o, (Table.find?_eq_some loaded).mpr hm, (hdiffers o).mp hd⟩
  · rintro ⟨o, ho, hd⟩
    exact ⟨(n, o), List.mem_filter.mpr ⟨(Table.find?_eq_some loaded).mp ho, (hdiffers o).mpr hd⟩,
      rfl⟩

theorem nodup_published (c : ObjectCache) (loaded : Table Name Object) :
    (vanished c loaded ++ changed c loaded).Nodup := by
  have hchanged : (changed c loaded).Nodup :=
    loaded.nodup_keys.sublist (List.filter_sublist.map Prod.fst)
  refine List.nodup_append.mpr ⟨c.objects.nodup_keys.filter _, hchanged, ?_⟩
  rintro n hn m hm rfl
  obtain ⟨o, ho, -⟩ := mem_changed.mp hm
  cases ho.symm.trans (mem_vanished.mp hn).2

end WatchedCache

/-! What readers see while a listing takes effect. -/

namespace CacheAct

theorem find?_foldl_on {acts : List CacheAct} {n : Name} (h : n ∉ acts.filterMap name?)
    (t : Table Name Object) : (acts.foldl on t).find? n = t.find? n := by
  induction acts generalizing t with
  | nil => rfl
  | cons a rest ih =>
    have hrest : n ∉ rest.filterMap name? := by
      intro hn
      obtain ⟨b, hb, hname⟩ := List.mem_filterMap.mp hn
      exact h (List.mem_filterMap.mpr ⟨b, List.mem_cons_of_mem _ hb, hname⟩)
    rw [List.foldl_cons, ih hrest]
    by_contra hchanged
    exact h (List.mem_filterMap.mpr ⟨a, List.mem_cons_self, name?_of_changed hchanged⟩)

/-- Where no name is changed twice, each is found as at the beginning or as at the end. -/
theorem find?_midway {done rest : List CacheAct} (h : ((done ++ rest).filterMap name?).Nodup)
    (t : Table Name Object) (n : Name) : (done.foldl on t).find? n = t.find? n ∨
      (done.foldl on t).find? n = ((done ++ rest).foldl on t).find? n := by
  by_cases hn : n ∈ done.filterMap name?
  · right
    -- The name has been changed, and what is left does not change it once more.
    rw [List.filterMap_append] at h
    have hrest : n ∉ rest.filterMap name? :=
      fun hr => (List.nodup_append.mp h).2.2 n hn n hr rfl
    rw [List.foldl_append, find?_foldl_on hrest]
  · exact Or.inl (find?_foldl_on hn t)

theorem names_forget (names : List Name) : (names.flatMap forget).filterMap name? = names := by
  induction names with
  | nil => rfl
  | cons n rest ih =>
    rw [List.flatMap_cons, List.filterMap_append, ih]
    rfl

theorem names_replace (c : ObjectCache) (l : List (Name × Object)) :
    (l.flatMap (replace c)).filterMap name? = l.map Prod.fst := by
  induction l with
  | nil => rfl
  | cons e rest ih =>
    rw [List.flatMap_cons, List.filterMap_append, ih]
    unfold replace
    split <;> rfl

theorem nodup_listingDone (c : WatchedCache) :
    ((ofEvent c .listingDone).filterMap name?).Nodup := by
  have hcomplete : ([CacheAct.complete] : List CacheAct).filterMap name? = [] := rfl
  simp only [ofEvent, List.filterMap_append, names_forget, names_replace, hcomplete,
    List.append_nil]
  refine List.nodup_append.mpr ⟨c.cache.objects.nodup_keys.filter _, Table.nodup_keys _, ?_⟩
  rintro n hn m hm rfl
  obtain ⟨o, ho⟩ := Table.mem_keys.mp hm
  cases ho.symm.trans (WatchedCache.mem_vanished.mp hn).2

/-- The listing counts as complete with the last act. -/
theorem completes_last {c : WatchedCache} {done rest : List CacheAct}
    (h : ofEvent c .listingDone = done ++ rest) : rest = [] ∨ done.any completes = false := by
  have hforget (names : List Name) : (names.flatMap forget).any completes = false := by
    simp [List.any_flatMap, forget, completes]
  have hreplace (l : List (Name × Object)) :
      (l.flatMap (replace c.cache)).any completes = false := by
    rw [List.any_flatMap, List.any_eq_false]
    intro e _
    unfold replace
    split <;> simp [completes]
  rcases List.eq_nil_or_concat rest with rfl | ⟨rest, last, rfl⟩
  · exact Or.inl rfl
  · right
    rw [ofEvent, ← List.append_assoc, List.concat_eq_append, ← List.append_assoc] at h
    have hdone := congrArg (List.any · completes) (List.append_inj' h rfl).1
    rw [List.any_append, List.any_append, hforget, hreplace] at hdone
    exact (Bool.or_eq_false_iff.mp hdone.symm).1

end CacheAct

/-- A reader who comes while a listing takes effect finds each name as before it or as after it. -/
theorem WatchedCache.midway {c : WatchedCache} {done rest : List CacheAct}
    (h : CacheAct.ofEvent c .listingDone = done ++ rest) :
    let m := done.foldl act (c.receive .listingDone)
    (∀ n, m.cache.find? n = c.cache.find? n ∨
      m.cache.find? n = (c.listing.getD .empty).find? n) ∧
    (rest = [] ∨ m.cache.synced = c.cache.synced) := by
  intro m
  have hm : m.cache = ⟨done.foldl CacheAct.on c.cache.objects,
      c.cache.synced || done.any CacheAct.completes⟩ :=
    congrArg WatchedCache.cache (CacheAct.foldl_act done (c.receive .listingDone))
  have hend : (done ++ rest).foldl CacheAct.on c.cache.objects = c.listing.getD .empty := by
    have hall := congrArg (fun p => p.1.cache.objects) (foldl_act_ofEvent c .listingDone)
    rw [h, CacheAct.foldl_act] at hall
    exact hall
  constructor
  · intro n
    have hnodup := CacheAct.nodup_listingDone c
    rw [h] at hnodup
    have hfind := CacheAct.find?_midway hnodup c.cache.objects n
    rw [hend] at hfind
    rw [hm]
    exact hfind
  · rcases CacheAct.completes_last h with hrest | hdone
    · exact Or.inl hrest
    · right
      rw [hm, hdone]
      exact Bool.or_false _

/-- Readers see nothing of a listing before its end, and of a listing that is cut off they never see
anything. At its end there is for each name the object listed last, and the names that are gone, new
or of another resource version are published, each once. A reader who comes while the listing takes
effect finds under each name what was there before or what is there after, and a cache that does not
count as synced before the last step. It counts as synced since the first listing was complete. -/
theorem relisting_is_atomic (before : List FeedEvent) :
    let c := (WatchedCache.empty.follow before).1
    c.cache.synced = before.any FeedEvent.completes ∧
    (∀ events, (∀ e ∈ events, e.Lists) →
      (c.follow events).1.cache = c.cache ∧ (c.follow events).2 = []) ∧
    (∀ l later e, e = .restart ∨ e = .event .listing →
      c.follow (opening l ++ e :: later) = c.follow (e :: later)) ∧
    ∀ l, let (d, names) := c.follow (opening l ++ [.event .listingDone])
      (∀ n, d.cache.find? n = (l.filter fun o => o.name = n).getLast?) ∧ names.Nodup ∧
      (∀ n, n ∈ names ↔
        (∃ old, c.cache.find? n = some old) ∧ d.cache.find? n = none ∨
        ∃ new, d.cache.find? n = some new ∧ ∀ old, c.cache.find? n = some old →
          old.metadata.resourceVersion ≠ new.metadata.resourceVersion) ∧
      ∀ done rest, CacheAct.ofEvent (c.follow (opening l)).1 .listingDone = done ++ rest →
        let midway := done.foldl WatchedCache.act ((c.follow (opening l)).1.receive .listingDone)
        (∀ n, midway.cache.find? n = c.cache.find? n ∨ midway.cache.find? n = d.cache.find? n) ∧
        (rest = [] ∨ midway.cache.synced = c.cache.synced) := by
  intro c
  refine ⟨WatchedCache.synced_follow before, fun _ => WatchedCache.follow_of_lists,
    fun l later e he => WatchedCache.follow_cut he l later, ?_⟩
  intro l
  rw [WatchedCache.follow_listingDone, WatchedCache.follow_opening]
  refine ⟨WatchedCache.find?_gather l, WatchedCache.nodup_published _ _, ?_, ?_⟩
  · intro n
    rw [List.mem_append, WatchedCache.mem_vanished, WatchedCache.mem_changed]
    rfl
  · intro done rest hacts
    exact WatchedCache.midway hacts

namespace Sample

open Mirroring.Sample (object)

/-- A cache after its first listing. -/
def cached : WatchedCache :=
  (WatchedCache.empty.follow (opening [object "api" "1", object "db" "1", object "web" "1"] ++
    [.event .listingDone])).1

/-- In the next listing an object is missing, one is unchanged and one is changed. -/
def relisted : List Object := [object "db" "1", object "web" "2"]

end Sample

/-- The listing counts for nothing if it is cut off. With its end two names are published, and in
between each name is found as before or as after. -/
theorem relisting_is_atomic_sample :
    (Sample.cached.follow (opening Sample.relisted)).1.cache = Sample.cached.cache ∧
    Sample.cached.follow (opening Sample.relisted ++ [.restart]) =
      Sample.cached.follow [.restart] ∧
    (Sample.cached.follow (opening Sample.relisted ++ [.event .listingDone])).2.map (·.name) =
      ["api", "web"] ∧
    ∀ n, let c := (Sample.cached.follow (opening Sample.relisted)).1
      let m := ((CacheAct.ofEvent c .listingDone).take 1).foldl WatchedCache.act
        (c.receive .listingDone)
      let d := (Sample.cached.follow (opening Sample.relisted ++ [.event .listingDone])).1
      m.cache.find? n = Sample.cached.cache.find? n ∨ m.cache.find? n = d.cache.find? n := by
  obtain ⟨-, hunseen, hcut, hdone⟩ := relisting_is_atomic
    (opening [Mirroring.Sample.object "api" "1", Mirroring.Sample.object "db" "1",
      Mirroring.Sample.object "web" "1"] ++ [.event .listingDone])
  obtain ⟨-, -, -, hmidway⟩ := hdone Sample.relisted
  have hseen := hunseen _ (lists_opening Sample.relisted)
  refine ⟨hseen.1, hcut Sample.relisted [] _ (Or.inl rfl), by decide +kernel, ?_⟩
  exact (hmidway _ _ (List.take_append_drop 1 _).symm).1

end FedTrack
