import FedTrack.Proofs.Table.Lookup
import FedTrack.Proofs.Table.Order
import FedTrack.Watch.Cache

namespace FedTrack

/-- What a cache does for an event, one atomic step after the other; readers may come between. -/
inductive CacheAct
  | put (name : Name) (o : Object)
  | remove (name : Name)
  | publish (name : Name)
  /-- A listing has been taken over as a whole. -/
  | complete

namespace CacheAct

def on (t : Table Name Object) : CacheAct → Table Name Object
  | .put name o => t.insert name o
  | .remove name => t.erase name
  | .publish _ | .complete => t

def published : CacheAct → List Name
  | .publish name => [name]
  | _ => []

def completes : CacheAct → Bool
  | .complete => true
  | _ => false

/-- The name whose entry may change. -/
def name? : CacheAct → Option Name
  | .put name _ | .remove name => some name
  | .publish _ | .complete => none

/-- A name is taken out. -/
def forget (name : Name) : List CacheAct := [.remove name, .publish name]

/-- A listed object is taken over. -/
def replace (c : ObjectCache) (e : Name × Object) : List CacheAct :=
  .put e.1 e.2 :: if WatchedCache.differs c e.1 e.2 then [.publish e.1] else []

def ofEvent (c : WatchedCache) : WatchEvent → List CacheAct
  | .listing | .listed _ => []
  | .listingDone =>
    let loaded := c.listing.getD .empty
    (WatchedCache.vanished c.cache loaded).flatMap forget ++
      (loaded.entries.flatMap (replace c.cache) ++ [.complete])
  | .applied o => [.put o.name o, .publish o.name]
  | .deleted o => forget o.name

end CacheAct

namespace WatchedCache

def act (c : WatchedCache) (a : CacheAct) : WatchedCache :=
  { c with cache := ⟨a.on c.cache.objects, c.cache.synced || a.completes⟩ }

/-- Takes note of an event, before anything is done for it. -/
def receive (c : WatchedCache) : WatchEvent → WatchedCache
  | .listing => { c with listing := some .empty }
  | .listed o => { c with listing := some ((c.listing.getD .empty).insert o.name o) }
  | .listingDone => { c with listing := none }
  | .applied _ | .deleted _ => c

end WatchedCache

/-! What all the acts for an event come to. -/

namespace CacheAct

theorem name?_of_changed {a : CacheAct} {t : Table Name Object} {n : Name}
    (h : (a.on t).find? n ≠ t.find? n) : a.name? = some n := by
  cases a with
  | put m o =>
    by_cases hm : m = n
    · rw [name?, hm]
    · exact absurd (by simp [on, hm]) h
  | remove m =>
    by_cases hm : m = n
    · rw [name?, hm]
    · exact absurd (by simp [on, hm]) h
  | publish m => exact absurd rfl h
  | complete => exact absurd rfl h

theorem foldl_act (acts : List CacheAct) (c : WatchedCache) : acts.foldl WatchedCache.act c =
    { c with cache := ⟨acts.foldl on c.cache.objects, c.cache.synced || acts.any completes⟩ } := by
  induction acts generalizing c with
  | nil => simp
  | cons a rest ih => simp [ih, WatchedCache.act, Bool.or_assoc]

theorem find?_forget (names : List Name) (t : Table Name Object) (n : Name) :
    ((names.flatMap forget).foldl on t).find? n = if n ∈ names then none else t.find? n := by
  induction names generalizing t with
  | nil => simp
  | cons m rest ih =>
    have hstep : ((m :: rest).flatMap forget).foldl on t =
        (rest.flatMap forget).foldl on (t.erase m) := rfl
    rw [hstep, ih, Table.find?_erase]
    by_cases hr : n ∈ rest
    · simp [hr]
    · by_cases hm : m = n
      · simp [hm]
      · have hne : n ≠ m := fun he => hm he.symm
        simp [hr, hm, hne]

theorem on_replace (c : ObjectCache) (e : Name × Object) (t : Table Name Object) :
    (replace c e).foldl on t = t.insert e.1 e.2 := by
  unfold replace
  split <;> rfl

theorem foldl_replace (c : ObjectCache) (l : List (Name × Object)) (t : Table Name Object) :
    (l.flatMap (replace c)).foldl on t = l.foldl (fun t e => t.insert e.1 e.2) t := by
  induction l generalizing t with
  | nil => rfl
  | cons e rest ih => rw [List.flatMap_cons, List.foldl_append, on_replace, ih, List.foldl_cons]

theorem published_forget (names : List Name) :
    (names.flatMap forget).flatMap published = names := by
  induction names with
  | nil => rfl
  | cons n rest ih =>
    rw [List.flatMap_cons, List.flatMap_append, ih]
    rfl

theorem published_replace (c : ObjectCache) (l : List (Name × Object)) :
    (l.flatMap (replace c)).flatMap published =
      (l.filter fun e => WatchedCache.differs c e.1 e.2).map Prod.fst := by
  induction l with
  | nil => rfl
  | cons e rest ih =>
    rw [List.flatMap_cons, List.flatMap_append, ih, List.filter_cons]
    unfold replace
    split <;> simp [published]

end CacheAct

namespace WatchedCache

theorem mem_vanished {c : ObjectCache} {loaded : Table Name Object} {n : Name} :
    n ∈ vanished c loaded ↔ (∃ o, c.find? n = some o) ∧ loaded.find? n = none := by
  simp [vanished, ObjectCache.keys, ObjectCache.find?, Table.mem_keys, Table.contains]

/-- Names that vanished are taken out and listed ones put in: what is left is the listing. -/
theorem foldl_listingDone (c : ObjectCache) (loaded : Table Name Object) :
    (loaded.entries.flatMap (CacheAct.replace c)).foldl CacheAct.on
      (((vanished c loaded).flatMap CacheAct.forget).foldl CacheAct.on c.objects) = loaded := by
  have hu := Table.unambiguous_of_nodup (Table.nodup_entries loaded.sorted)
  ext1 n
  rw [CacheAct.foldl_replace]
  rcases Table.find?_foldl_insert loaded.entries
    (((vanished c loaded).flatMap CacheAct.forget).foldl CacheAct.on c.objects) n with
    ⟨hnone, hf⟩ | ⟨o, ho, hf⟩
  · have hn : loaded.find? n = none := by
      rw [Option.eq_none_iff_forall_ne_some]
      intro o ho
      exact hnone o ((Table.find?_eq_some loaded).mp ho)
    rw [hf, CacheAct.find?_forget, hn]
    split
    · rfl
    · rename_i hv
      rw [Option.eq_none_iff_forall_ne_some]
      intro o ho
      exact hv (mem_vanished.mpr ⟨⟨o, ho⟩, hn⟩)
  · rw [hf]
    exact ((Table.find?_eq_some loaded).mpr ho).symm

/-- The acts for an event, done one after the other, are all that the event does. -/
theorem foldl_act_ofEvent (c : WatchedCache) (e : WatchEvent) :
    ((CacheAct.ofEvent c e).foldl act (c.receive e), (CacheAct.ofEvent c e).flatMap
      CacheAct.published) = c.handle e := by
  cases e with
  | listing => rfl
  | listed o => rfl
  | applied o =>
    simp [CacheAct.ofEvent, act, receive, handle, ObjectCache.put, CacheAct.on,
      CacheAct.published, CacheAct.completes]
  | deleted o =>
    simp [CacheAct.ofEvent, CacheAct.forget, act, receive, handle, ObjectCache.remove,
      CacheAct.on, CacheAct.published, CacheAct.completes]
  | listingDone =>
    have hobjects := foldl_listingDone c.cache (c.listing.getD .empty)
    have hpublished : ([CacheAct.complete] : List CacheAct).flatMap CacheAct.published = [] := rfl
    simp only [CacheAct.ofEvent, CacheAct.foldl_act, List.foldl_append, List.flatMap_append,
      CacheAct.published_forget, CacheAct.published_replace, hpublished, List.append_nil, handle,
      receive]
    rw [hobjects]
    simp [CacheAct.on, CacheAct.completes, changed]

end WatchedCache

/-! A reader beside the cache. -/

/-- A cache at work, and a reader that copies what the cache has under the published names. -/
structure Mirroring where
  cache : WatchedCache
  /-- What is left to do for the event at hand. -/
  acts : List CacheAct
  channel : List Name
  /-- The name that the reader has taken and not looked up yet. -/
  hand : Option Name
  mirror : Table Name Object

inductive MirrorMove
  | receive (e : WatchEvent)
  /-- The watch fails, and another one begins. -/
  | breakOff
  | act
  | take
  | copy

namespace Mirroring

def new : Mirroring := ⟨.empty, [], [], none, .empty⟩

def entry (t : Table Name Object) (name : Name) : Option Object → Table Name Object
  | some o => t.insert name o
  | none => t.erase name

/-- An event is received, and a failure noticed, when nothing is left to do for the one before. -/
def step (s : Mirroring) : MirrorMove → Mirroring
  | .receive e =>
    if s.acts = [] then { s with cache := s.cache.receive e, acts := CacheAct.ofEvent s.cache e }
    else s
  | .breakOff => if s.acts = [] then { s with cache := s.cache.restart } else s
  | .act =>
    match s.acts with
    | [] => s
    | a :: rest =>
      { s with cache := s.cache.act a, acts := rest, channel := s.channel ++ a.published }
  | .take =>
    match s.hand, s.channel with
    | none, name :: rest => { s with hand := some name, channel := rest }
    | _, _ => s
  | .copy =>
    match s.hand with
    | none => s
    | some name => { s with hand := none, mirror := entry s.mirror name (s.cache.cache.find? name) }

def run (s : Mirroring) (moves : List MirrorMove) : Mirroring := moves.foldl step s

/-- The reader reads what it has in its hand and then so many names. -/
def reads (k : Nat) : List MirrorMove := .copy :: (List.replicate k [.take, .copy]).flatten

end Mirroring

/-- The object that an event says is there. -/
def WatchEvent.shown? : WatchEvent → Option Object
  | .listed o | .applied o => some o
  | _ => none

def MirrorMove.shown? : MirrorMove → Option Object
  | .receive e => e.shown?
  | _ => none

namespace Mirroring

/-- All objects that the watch tells of. -/
def shown (moves : List MirrorMove) : List Object := moves.filterMap MirrorMove.shown?

/-- Objects of one name and one resource version are one object. -/
def Versioned (l : List Object) : Prop :=
  ∀ o ∈ l, ∀ p ∈ l, o.name = p.name →
    o.metadata.resourceVersion = p.metadata.resourceVersion → o = p

instance (l : List Object) : Decidable (Versioned l) :=
  inferInstanceAs (Decidable (∀ o ∈ l, ∀ p ∈ l, _))

end Mirroring

/-- Whatever the acts change from here on is published after the change. -/
def Announced (t : Table Name Object) : List CacheAct → Prop
  | [] => True
  | a :: rest =>
    (∀ n, (a.on t).find? n ≠ t.find? n → .publish n ∈ rest) ∧ Announced (a.on t) rest

namespace Announced

open CacheAct

theorem forget {names : List Name} {t : Table Name Object} {rest : List CacheAct}
    (h : Announced ((names.flatMap CacheAct.forget).foldl on t) rest) :
    Announced t (names.flatMap CacheAct.forget ++ rest) := by
  induction names generalizing t with
  | nil => exact h
  | cons n names ih =>
    refine ⟨?_, fun m hm => absurd rfl hm, ih h⟩
    intro m hm
    have hnm : n = m := Option.some.inj (name?_of_changed hm)
    subst hnm
    exact List.mem_cons_self

/-- An object that has not changed is not published. -/
theorem replace {c : ObjectCache} {l : List (Name × Object)} {t : Table Name Object}
    {rest : List CacheAct} (hnodup : (l.map Prod.fst).Nodup)
    (hsame : ∀ e ∈ l, WatchedCache.differs c e.1 e.2 = false → t.find? e.1 = some e.2)
    (h : Announced ((l.flatMap (CacheAct.replace c)).foldl on t) rest) :
    Announced t (l.flatMap (CacheAct.replace c) ++ rest) := by
  induction l generalizing t with
  | nil => exact h
  | cons e l ih =>
    obtain ⟨hfresh, hnodup⟩ := List.nodup_cons.mp hnodup
    rw [List.flatMap_cons, List.foldl_append, on_replace] at h
    have htail : Announced (t.insert e.1 e.2) (l.flatMap (CacheAct.replace c) ++ rest) := by
      apply ih hnodup _ h
      intro e' he' hd
      have hne : e.1 ≠ e'.1 := by
        intro heq
        apply hfresh
        rw [heq]
        exact List.mem_map_of_mem he'
      rw [Table.find?_insert, if_neg hne]
      exact hsame e' (List.mem_cons_of_mem _ he') hd
    rw [List.flatMap_cons, CacheAct.replace]
    cases hd : WatchedCache.differs c e.1 e.2 with
    | false =>
      refine ⟨?_, htail⟩
      intro n hn
      have hold := hsame e List.mem_cons_self hd
      exfalso
      apply hn
      simp only [on, Table.find?_insert]
      split
      · rename_i heq
        rw [← heq, hold]
      · rfl
    | true =>
      refine ⟨?_, fun n hn => absurd rfl hn, htail⟩
      intro n hn
      have hen : e.1 = n := Option.some.inj (name?_of_changed hn)
      subst hen
      exact List.mem_cons_self

end Announced

namespace Mirroring

/-- All objects at hand have been received, and each stands under its name. -/
structure Known (known : Object → Prop) (s : Mirroring) : Prop where
  cached : ∀ n o, s.cache.cache.find? n = some o → o.name = n ∧ known o
  listed : ∀ n o, (s.cache.listing.getD .empty).find? n = some o → o.name = n ∧ known o
  acts : ∀ n o, .put n o ∈ s.acts → o.name = n ∧ known o

/-- A name under which mirror and cache differ is on its way to the reader. -/
structure Following (s : Mirroring) : Prop where
  announced : Announced s.cache.cache.objects s.acts
  underway : ∀ n, s.mirror.find? n = s.cache.cache.find? n ∨ n ∈ s.channel ∨ s.hand = some n ∨
    .publish n ∈ s.acts

variable {known : Object → Prop} {s : Mirroring}

theorem known_new : Known known new := by
  refine ⟨?_, ?_, ?_⟩
  · intro n o ho
    cases ho
  · intro n o ho
    cases ho
  · intro n o ho
    cases ho

namespace Known

theorem insert {t : Table Name Object} {o : Object} (hk : known o)
    (ht : ∀ n o, t.find? n = some o → o.name = n ∧ known o) (n : Name) (p : Object)
    (hp : (t.insert o.name o).find? n = some p) : p.name = n ∧ known p := by
  rw [Table.find?_insert] at hp
  split at hp
  · rename_i hn
    cases hp
    exact ⟨hn, hk⟩
  · exact ht n p hp

theorem mem_ofEvent (h : Known known s) {e : WatchEvent} (he : ∀ o, e.shown? = some o → known o)
    {n : Name} {o : Object} (ho : .put n o ∈ CacheAct.ofEvent s.cache e) :
    o.name = n ∧ known o := by
  cases e with
  | listing => cases ho
  | listed p => cases ho
  | applied p =>
    simp only [CacheAct.ofEvent, List.mem_cons, CacheAct.put.injEq, reduceCtorEq, List.not_mem_nil,
      or_false] at ho
    obtain ⟨rfl, rfl⟩ := ho
    exact ⟨rfl, he o rfl⟩
  | deleted p => simp [CacheAct.ofEvent, CacheAct.forget] at ho
  | listingDone =>
    simp only [CacheAct.ofEvent, List.mem_append, List.mem_flatMap, CacheAct.forget,
      CacheAct.replace] at ho
    rcases ho with ⟨m, -, hm⟩ | ⟨p, hp, hm⟩ | hm
    · simp at hm
    · have hput : n = p.1 ∧ o = p.2 := by
        split at hm
        · simpa using hm
        · simpa using hm
      obtain ⟨rfl, rfl⟩ := hput
      exact h.listed _ _ ((Table.find?_eq_some _).mpr hp)
    · simp at hm

theorem receive (h : Known known s) {e : WatchEvent} (he : ∀ o, e.shown? = some o → known o) :
    Known known { s with cache := s.cache.receive e, acts := CacheAct.ofEvent s.cache e } := by
  refine ⟨?_, ?_, fun n o => h.mem_ofEvent he⟩
  · cases e <;> exact h.cached
  · cases e with
    | listing =>
      intro n o ho
      cases ho
    | listed o => exact insert (he o rfl) h.listed
    | listingDone =>
      intro n o ho
      cases ho
    | applied o => exact h.listed
    | deleted o => exact h.listed

theorem act (h : Known known s) {a : CacheAct} {rest : List CacheAct} (ha : s.acts = a :: rest) :
    Known known
      { s with cache := s.cache.act a, acts := rest, channel := s.channel ++ a.published } := by
  refine ⟨?_, h.listed, ?_⟩
  · cases a with
    | put m p =>
      obtain ⟨rfl, hp⟩ := h.acts m p (by simp [ha])
      exact insert hp h.cached
    | remove m =>
      intro n o ho
      simp only [WatchedCache.act, ObjectCache.find?, CacheAct.on, Table.find?_erase] at ho
      split at ho
      · cases ho
      · exact h.cached n o ho
    | publish m => exact h.cached
    | complete => exact h.cached
  · intro n o ho
    exact h.acts n o (by rw [ha]; exact List.mem_cons_of_mem _ ho)

theorem step (h : Known known s) {m : MirrorMove}
    (hm : ∀ o, m.shown? = some o → known o) : Known known (s.step m) := by
  cases m with
  | receive e =>
    simp only [Mirroring.step]
    split
    · exact h.receive hm
    · exact h
  | breakOff =>
    simp only [Mirroring.step]
    split
    · refine ⟨h.cached, ?_, h.acts⟩
      intro n o ho
      cases ho
    · exact h
  | act =>
    simp only [Mirroring.step]
    split
    · exact h
    · rename_i a rest ha
      exact h.act ha
  | take =>
    simp only [Mirroring.step]
    split
    · exact ⟨h.cached, h.listed, h.acts⟩
    · exact h
  | copy =>
    simp only [Mirroring.step]
    split
    · exact h
    · exact ⟨h.cached, h.listed, h.acts⟩

/-- A listed object that has the version of the cached one is that object. -/
theorem announced (h : Known known s)
    (hv : ∀ o p, known o → known p → o.name = p.name →
      o.metadata.resourceVersion = p.metadata.resourceVersion → o = p) (e : WatchEvent) :
    Announced s.cache.cache.objects (CacheAct.ofEvent s.cache e) := by
  cases e with
  | listing => trivial
  | listed o => trivial
  | applied o =>
    refine ⟨?_, fun n hn => absurd rfl hn, trivial⟩
    intro n hn
    have hon : o.name = n := Option.some.inj (CacheAct.name?_of_changed hn)
    subst hon
    exact List.mem_cons_self
  | deleted o =>
    have hforget : Announced s.cache.cache.objects ([o.name].flatMap CacheAct.forget ++ []) :=
      Announced.forget trivial
    simpa [CacheAct.ofEvent] using hforget
  | listingDone =>
    apply Announced.forget
    refine Announced.replace (Table.nodup_entries (Table.sorted _)) ?_
      ⟨fun n hn => absurd rfl hn, trivial⟩
    intro e he hd
    have hlisted := (Table.find?_eq_some _).mpr he
    obtain ⟨hname, hknown⟩ := h.listed e.1 e.2 hlisted
    have hkept : e.1 ∉ WatchedCache.vanished s.cache.cache (s.cache.listing.getD .empty) := by
      intro hmem
      have hnone := (WatchedCache.mem_vanished.mp hmem).2
      rw [hlisted] at hnone
      cases hnone
    rw [CacheAct.find?_forget, if_neg hkept]
    unfold WatchedCache.differs at hd
    split at hd
    · cases hd
    · rename_i old hold
      obtain ⟨holdname, holdknown⟩ := h.cached e.1 old hold
      have hversion : old.metadata.resourceVersion = e.2.metadata.resourceVersion := by
        simpa using hd
      rw [← hv old e.2 holdknown hknown (holdname.trans hname.symm) hversion]
      exact hold

end Known

namespace Following

theorem new : Following new := ⟨trivial, fun _ => Or.inl rfl⟩

theorem receive (h : Following s) (ha : s.acts = []) {e : WatchEvent}
    (he : Announced s.cache.cache.objects (CacheAct.ofEvent s.cache e)) :
    Following { s with cache := s.cache.receive e, acts := CacheAct.ofEvent s.cache e } := by
  have hcache : (s.cache.receive e).cache = s.cache.cache := by cases e <;> rfl
  refine ⟨?_, ?_⟩
  · rw [hcache]
    exact he
  · intro n
    rw [hcache]
    rcases h.underway n with hn | hn | hn | hn
    · exact Or.inl hn
    · exact Or.inr (Or.inl hn)
    · exact Or.inr (Or.inr (Or.inl hn))
    · rw [ha] at hn
      cases hn

theorem act (h : Following s) {a : CacheAct} {rest : List CacheAct} (ha : s.acts = a :: rest) :
    Following
      { s with cache := s.cache.act a, acts := rest, channel := s.channel ++ a.published } := by
  have hann := h.announced
  rw [ha] at hann
  refine ⟨hann.2, ?_⟩
  intro n
  by_cases hn : (a.on s.cache.cache.objects).find? n = s.cache.cache.objects.find? n
  · rcases h.underway n with hm | hm | hm | hm
    · exact Or.inl (hm.trans hn.symm)
    · exact Or.inr (Or.inl (List.mem_append_left _ hm))
    · exact Or.inr (Or.inr (Or.inl hm))
    · rw [ha] at hm
      rcases List.mem_cons.mp hm with rfl | hm
      · exact Or.inr (Or.inl (List.mem_append_right _ (by simp [CacheAct.published])))
      · exact Or.inr (Or.inr (Or.inr hm))
  · exact Or.inr (Or.inr (Or.inr (hann.1 n hn)))

theorem take (h : Following s) (hh : s.hand = none) {name : Name} {rest : List Name}
    (hc : s.channel = name :: rest) :
    Following { s with hand := some name, channel := rest } := by
  refine ⟨h.announced, ?_⟩
  intro n
  rcases h.underway n with hn | hn | hn | hn
  · exact Or.inl hn
  · rw [hc] at hn
    rcases List.mem_cons.mp hn with rfl | hn
    · exact Or.inr (Or.inr (Or.inl rfl))
    · exact Or.inr (Or.inl hn)
  · rw [hh] at hn
    cases hn
  · exact Or.inr (Or.inr (Or.inr hn))

theorem find?_entry (t : Table Name Object) (name n : Name) (o : Option Object) :
    (entry t name o).find? n = if name = n then o else t.find? n := by
  cases o with
  | none => exact Table.find?_erase t name n
  | some o => exact Table.find?_insert t name o n

theorem copy (h : Following s) {name : Name} (hh : s.hand = some name) :
    Following
      { s with hand := none, mirror := entry s.mirror name (s.cache.cache.find? name) } := by
  refine ⟨h.announced, ?_⟩
  intro n
  by_cases hn : name = n
  · left
    simp [find?_entry, hn]
  · rcases h.underway n with hm | hm | hm | hm
    · left
      simp [find?_entry, hn, hm]
    · exact Or.inr (Or.inl hm)
    · rw [hh] at hm
      exact absurd (Option.some.inj hm) hn
    · exact Or.inr (Or.inr (Or.inr hm))

theorem step (h : Following s) {m : MirrorMove}
    (hm : ∀ e, m = .receive e → Announced s.cache.cache.objects (CacheAct.ofEvent s.cache e)) :
    Following (s.step m) := by
  cases m with
  | receive e =>
    simp only [Mirroring.step]
    split
    · rename_i ha
      exact h.receive ha (hm e rfl)
    · exact h
  | breakOff =>
    simp only [Mirroring.step]
    split
    · exact ⟨h.announced, h.underway⟩
    · exact h
  | act =>
    simp only [Mirroring.step]
    split
    · exact h
    · rename_i a rest ha
      exact h.act ha
  | take =>
    simp only [Mirroring.step]
    split
    · rename_i hh hc
      exact h.take hh hc
    · exact h
  | copy =>
    simp only [Mirroring.step]
    split
    · exact h
    · rename_i name hh
      exact h.copy hh

/-- Nothing on its way means nothing to tell. -/
theorem mirror_eq (h : Following s) (ha : s.acts = []) (hc : s.channel = []) (hh : s.hand = none) :
    s.mirror = s.cache.cache.objects := by
  ext1 n
  rcases h.underway n with hn | hn | hn | hn
  · exact hn
  · rw [hc] at hn
    cases hn
  · rw [hh] at hn
    cases hn
  · rw [ha] at hn
    cases hn

end Following

theorem following_run {moves : List MirrorMove}
    (hv : ∀ o p, known o → known p → o.name = p.name →
      o.metadata.resourceVersion = p.metadata.resourceVersion → o = p)
    (hm : ∀ o ∈ shown moves, known o) (hk : Known known s) (hf : Following s) :
    Known known (s.run moves) ∧ Following (s.run moves) := by
  induction moves generalizing s with
  | nil => exact ⟨hk, hf⟩
  | cons m rest ih =>
    have hfirst : ∀ o, m.shown? = some o → known o := by
      intro o ho
      exact hm o (List.mem_filterMap.mpr ⟨m, List.mem_cons_self, ho⟩)
    have hrest : ∀ o ∈ shown rest, known o := by
      intro o ho
      obtain ⟨m', hm', ho'⟩ := List.mem_filterMap.mp ho
      exact hm o (List.mem_filterMap.mpr ⟨m', List.mem_cons_of_mem _ hm', ho'⟩)
    exact ih hrest (hk.step hfirst) (hf.step fun e _ => hk.announced hv e)

theorem shown_reads (k : Nat) : shown (reads k) = [] := by
  rw [shown, List.filterMap_eq_nil_iff]
  intro m hm
  simp only [reads, List.mem_cons, List.mem_flatten, List.mem_replicate] at hm
  rcases hm with rfl | ⟨l, ⟨-, rfl⟩, hl⟩
  · rfl
  · simp only [List.mem_cons, List.not_mem_nil, or_false] at hl
    rcases hl with rfl | rfl <;> rfl

/-- A reader with nothing in its hand that reads as many names as the channel has. -/
theorem run_taking {s : Mirroring} (hh : s.hand = none) {k : Nat} (hk : s.channel.length = k) :
    let d := s.run (List.replicate k [MirrorMove.take, .copy]).flatten
    d.cache = s.cache ∧ d.acts = s.acts ∧ d.channel = [] ∧ d.hand = none := by
  induction k generalizing s with
  | zero => exact ⟨rfl, rfl, List.length_eq_zero_iff.mp hk, hh⟩
  | succ k ih =>
    cases hc : s.channel with
    | nil => simp [hc] at hk
    | cons name rest =>
      have hstep : (s.step .take).step .copy = { s with
          hand := none
          channel := rest
          mirror := entry s.mirror name (s.cache.cache.find? name) } := by
        simp only [step, hh, hc]
      have hrest : rest.length = k := by
        rw [hc, List.length_cons] at hk
        omega
      have hrun : s.run (List.replicate (k + 1) [MirrorMove.take, .copy]).flatten =
          ((s.step .take).step .copy).run
            (List.replicate k [MirrorMove.take, .copy]).flatten := rfl
      simp only [hrun, hstep]
      exact ih rfl hrest

theorem step_copy (s : Mirroring) : (s.step .copy).cache = s.cache ∧
    (s.step .copy).acts = s.acts ∧ (s.step .copy).channel = s.channel ∧
    (s.step .copy).hand = none := by
  simp only [step]
  split
  · rename_i hh
    exact ⟨rfl, rfl, rfl, hh⟩
  · exact ⟨rfl, rfl, rfl, rfl⟩

/-- A reader that goes on reading leaves the cache alone and gets to the end of the channel. -/
theorem run_reads (s : Mirroring) : (s.run (reads s.channel.length)).cache = s.cache ∧
    (s.run (reads s.channel.length)).acts = s.acts ∧
    (s.run (reads s.channel.length)).channel = [] ∧
    (s.run (reads s.channel.length)).hand = none := by
  obtain ⟨hcache, hacts, hchannel, hhand⟩ := step_copy s
  have hlast := run_taking hhand (congrArg List.length hchannel)
  rw [hcache, hacts] at hlast
  exact hlast

/-- The published names are enough. Whatever the watch tells, and however the reader's steps come
between those of the cache, a name under which the reader's copy differs from the cache is on its
way to the reader. So the copy is the cache's content whenever nothing is on its way, and it gets
there as soon as the reader has read on to the end of the channel. -/
theorem mirror_of_published {moves : List MirrorMove} (hv : Versioned (shown moves)) :
    let s := new.run moves
    (∀ n, s.mirror.find? n = s.cache.cache.find? n ∨ n ∈ s.channel ∨ s.hand = some n ∨
      .publish n ∈ s.acts) ∧
    (s.acts = [] → s.channel = [] → s.hand = none → s.mirror = s.cache.cache.objects) ∧
    (s.acts = [] → let d := s.run (reads s.channel.length)
      d.cache = s.cache ∧ d.channel = [] ∧ d.hand = none ∧ d.mirror = s.cache.cache.objects) := by
  intro s
  have hknown : ∀ o p, o ∈ shown moves → p ∈ shown moves → o.name = p.name →
      o.metadata.resourceVersion = p.metadata.resourceVersion → o = p :=
    fun o p ho hp => hv o ho p hp
  obtain ⟨hk, hf⟩ := following_run hknown (fun o ho => ho) known_new Following.new
  refine ⟨hf.underway, hf.mirror_eq, ?_⟩
  intro ha
  obtain ⟨hcache, hacts, hchannel, hhand⟩ := run_reads s
  have hreads : ∀ o ∈ shown (reads s.channel.length), o ∈ shown moves := by
    intro o ho
    rw [shown_reads] at ho
    cases ho
  obtain ⟨-, hf'⟩ := following_run hknown hreads hk hf
  have hmirror := hf'.mirror_eq (hacts.trans ha) hchannel hhand
  refine ⟨hcache, hchannel, hhand, ?_⟩
  rw [hmirror, hcache]

namespace Sample

def object (name version : String) : Object :=
  ⟨none, { Metadata.empty with name := some name, resourceVersion := some version }, .null⟩

def relist (objects : List Object) : List MirrorMove :=
  (WatchedCache.listingEvents objects).map .receive

/-- The watch breaks off before the reader has read the first listing. The second one has an
object less, one unchanged and one changed. -/
def moves : List MirrorMove :=
  relist [object "api" "1", object "db" "1", object "web" "1"] ++ List.replicate 7 .act ++
    [.take, .breakOff] ++ relist [object "db" "1", object "web" "2"] ++
    [.act, .copy, .act, .act, .take, .act, .act, .act]

end Sample

/-- After the second listing the reader has one name to look up and three to read. -/
theorem mirror_of_published_sample : Versioned (shown Sample.moves) ∧
    let s := new.run Sample.moves
    s.acts = [] ∧ s.channel.length = 3 ∧ s.mirror ≠ s.cache.cache.objects ∧
      (s.run (reads 3)).mirror = s.cache.cache.objects := by
  have hv : Versioned (shown Sample.moves) := by decide +kernel
  have ha : (new.run Sample.moves).acts = [] := by decide +kernel
  have hlength : (new.run Sample.moves).channel.length = 3 := by decide +kernel
  obtain ⟨-, -, hread⟩ := mirror_of_published hv
  obtain ⟨-, -, -, hmirror⟩ := hread ha
  rw [hlength] at hmirror
  exact ⟨hv, ha, hlength, by decide +kernel, hmirror⟩

end Mirroring

end FedTrack
