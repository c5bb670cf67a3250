import FedTrack.Proofs.Version.Chronicle

namespace FedTrack

open MemoryStore

/-- The site shows what the history tells of the record cached under `key` and stored under `own`.
Where the history tells nothing all is as it was at `y`, but that a missing record may have been
created. -/
structure Mirrored (y : Site) (key own : Name) (x : Site) (h : History) : Prop where
  setup : x.manager.setup = y.manager.setup
  named : x.manager.ownName key = own
  cached : x.manager.face? key =
    (h.cached.map fun e => RecordType.face e.2).or (y.manager.face? key)
  stored : ∀ i o, h.stored = some (i, o) →
    ∃ p, x.stored? own = some p ∧ RecordType.status? p = RecordType.status? o
  untouched : h.stored = none → y.stored? own ≠ none → x.stored? own = y.stored? own

namespace Mirrored

variable {y x z : Site} {key own : Name} {h : History}

theorem stored?_opened (hk : z.kind = x.kind) (hs : Opened x.kind own x.store z.store)
    (hx : x.stored? own ≠ none) : z.stored? own = x.stored? own := by
  rw [Site.stored?, hk]
  rcases hs with hs | ⟨hnone, -⟩
  · exact hs x.kind own
  · exact absurd hnone hx

theorem quiet (hx : Mirrored y key own x h) (hm : z.manager.setup = x.manager.setup)
    (hf : z.manager.face? key = x.manager.face? key) (hs : Opened x.kind own x.store z.store) :
    Mirrored y key own z h := by
  have hk : z.kind = x.kind := Site.kind_congr hm
  refine ⟨hm.trans hx.setup, ?_, hf.trans hx.cached, ?_, ?_⟩
  · rw [VersionManager.ownName_congr hm hf]
    exact hx.named
  · intro i o ho
    obtain ⟨p, hp, hps⟩ := hx.stored i o ho
    refine ⟨p, ?_, hps⟩
    rw [stored?_opened hk hs (by rw [hp]; exact Option.some_ne_none p), hp]
  · intro ho hy
    have hxy := hx.untouched ho hy
    rw [stored?_opened hk hs (by rw [hxy]; exact hy), hxy]

theorem cache (hx : Mirrored y key own x h) (i : Nat) {record : Object} (hname : record.name = own)
    (hm : z.manager = x.manager.cache key record) (hs : z.store = x.store) :
    Mirrored y key own z { h with cached := some (i, record) } := by
  have hsetup : z.manager.setup = x.manager.setup := by rw [hm, VersionManager.setup_cache]
  have hst : z.stored? own = x.stored? own := by
    rw [Site.stored?, Site.kind_congr hsetup, hs]
    rfl
  have hface : z.manager.face? key = some (RecordType.face record) := by
    rw [hm, VersionManager.face?_cache, if_pos rfl]
  refine ⟨hsetup.trans hx.setup, ?_, hface, ?_, ?_⟩
  · rw [VersionManager.ownName_eq_face?, hface]
    exact hname
  · rw [hst]
    exact hx.stored
  · rw [hst]
    exact hx.untouched

theorem save (hx : Mirrored y key own x h) (i : Nat) {record : Object} (hname : record.name = own)
    (hm : z.manager = x.manager) (hs : Saved x.kind record x.store z.store) :
    Mirrored y key own z { h with stored := some (i, record) } := by
  have hk : z.kind = x.kind := Site.kind_congr (by rw [hm])
  obtain ⟨p, hp, hput⟩ := hs
  refine ⟨?_, ?_, ?_, ?_, ?_⟩
  · rw [hm]
    exact hx.setup
  · rw [hm]
    exact hx.named
  · rw [hm]
    exact hx.cached
  · intro j o ho
    cases ho
    refine ⟨p, ?_, hp⟩
    rw [Site.stored?, hk, ← hname]
    exact hput.at
  · intro ho
    cases ho

end Mirrored

/-- What holds of updates of resource `n` that overlap, begun at `y`. -/
structure Overlapping (y : Site) (n : Name) (s : Session) : Prop where
  mirrored : Mirrored y (y.manager.recordName n) (y.manager.ownName (y.manager.recordName n)) s.site
    s.history
  chronicle : Chronicle n (y.manager.ownName (y.manager.recordName n))
    (∃ status, y.manager.status? (y.manager.recordName n) = some status) s.history s.updates

namespace Overlapping

variable {y : Site} {n : Name} {s : Session} {i : Nat}

theorem new (y : Site) (n : Name) : Overlapping y n (Session.new y) := by
  refine ⟨⟨rfl, rfl, rfl, ?_, fun _ _ => rfl⟩, .nil⟩
  intro i o ho
  cases ho

theorem key (hs : Overlapping y n s) {r : UpdateRequest} (hr : r.resource.name = n) :
    s.site.key r = y.manager.recordName n := by
  rw [Site.key, hr, VersionManager.recordName_congr hs.mirrored.setup]

/-- A found record is one of these updates, or it was there before. -/
theorem found (hs : Overlapping y n s) {status : VersionStatus}
    (hf : s.site.manager.status? (y.manager.recordName n) = some status) :
    s.history.cached ≠ none ∨
      ∃ status, y.manager.status? (y.manager.recordName n) = some status := by
  cases hc : s.history.cached with
  | some e => exact Or.inl (Option.some_ne_none e)
  | none =>
    refine Or.inr ⟨status, ?_⟩
    rw [VersionManager.status?_eq_bind_face?, hs.mirrored.cached, hc] at hf
    rw [VersionManager.status?_eq_bind_face?]
    exact hf

theorem go_preparing (hs : Overlapping y n s) {r : UpdateRequest}
    (hi : s.updates[i]? = some (.preparing r)) {z : Site × UpdateStage}
    (hz : UpdateStage.Began s.site r z) :
    Overlapping y n ⟨z.1, s.updates.set i z.2, s.history.note i (.preparing r) z.2⟩ := by
  have hr : r.resource.name = n := (hs.chronicle.fits i _ hi).1
  have hk := hs.key hr
  have hfresh := (hs.chronicle.fits i _ hi).2.1
  cases hz with
  | refused hp => exact ⟨hs.mirrored, hs.chronicle.quiet hi trivial⟩
  | idle hp =>
    obtain ⟨-, old, asked, -, hold, -⟩ := VersionManager.prepare_none hp
    rw [← Site.key, hk] at hold
    exact ⟨hs.mirrored, hs.chronicle.quiet hi ⟨hs.found hold, fun c hc => absurd hc (hfresh c)⟩⟩
  | @changed w hp =>
    obtain ⟨-, hname, asked, -, hstatus⟩ := VersionManager.prepare_some hp
    rw [← Site.key, hk, hs.mirrored.named] at hname
    rw [hk]
    exact ⟨hs.mirrored.cache i hname rfl rfl, hs.chronicle.cache hi hname ⟨asked, hstatus⟩⟩

theorem go_writing (hs : Overlapping y n s) {name : Name} {w : Write}
    (hi : s.updates[i]? = some (.writing name w)) {z : Site × UpdateStage}
    (hz : UpdateStage.Wrote s.site name w.record z) :
    Overlapping y n ⟨z.1, s.updates.set i z.2, s.history.note i (.writing name w) z.2⟩ := by
  obtain ⟨hname, hcached, hown, hstored⟩ := hs.chronicle.fits i _ hi
  cases hz with
  | @on x w' hm ho hw =>
    rw [hname] at ho
    refine ⟨hs.mirrored.quiet (by rw [hm]) (by rw [hm]) ho, hs.chronicle.quiet hi ?_⟩
    rw [← hw] at hname hown
    exact ⟨hname, hcached, hown, hstored⟩
  | failed hm ho =>
    rw [hname] at ho
    exact ⟨hs.mirrored.quiet (by rw [hm]) (by rw [hm]) ho, hs.chronicle.quiet hi trivial⟩
  | saved hm ho => exact ⟨hs.mirrored.save i hname hm ho, hs.chronicle.save hi⟩

theorem go (hs : Overlapping y n s) {u : UpdateStage} (hi : s.updates[i]? = some u) (now : Time) :
    Overlapping y n ⟨(UpdateStage.step now s.site u).1,
      s.updates.set i (UpdateStage.step now s.site u).2,
      s.history.note i u (UpdateStage.step now s.site u).2⟩ := by
  cases u with
  | preparing r => exact hs.go_preparing hi (UpdateStage.step_preparing now s.site r)
  | writing name w => exact hs.go_writing hi (UpdateStage.step_writing now s.site name w)
  | adopting name version =>
    obtain ⟨hcached, hstored⟩ := hs.chronicle.fits i _ hi
    refine ⟨hs.mirrored.quiet (VersionManager.setup_adopt _ _) (VersionManager.face?_adopt _ _ _ _)
      (opened_of_objects _ _ rfl), hs.chronicle.quiet hi ?_⟩
    exact ⟨Or.inl hcached, fun _ _ => hstored⟩
  | finished result =>
    exact ⟨hs.mirrored, hs.chronicle.quiet hi (hs.chronicle.fits i _ hi)⟩

theorem step (hs : Overlapping y n s) {e : Event} (he : ∀ r, e = .start r → r.resource.name = n) :
    Overlapping y n (s.step e) := by
  cases e with
  | start r => exact ⟨hs.mirrored, hs.chronicle.start (he r rfl)⟩
  | fault op f => exact ⟨hs.mirrored.quiet rfl rfl (opened_of_objects _ _ rfl), hs.chronicle⟩
  | go i now =>
    unfold Session.step
    dsimp only
    cases hi : s.updates[i]? with
    | none => exact hs
    | some u => exact hs.go hi now

theorem run (hs : Overlapping y n s) {events : List Event}
    (he : ∀ r, .start r ∈ events → r.resource.name = n) : Overlapping y n (s.run events) := by
  induction events generalizing s with
  | nil => exact hs
  | cons e rest ih =>
    have hstep := hs.step (e := e) fun r hr => he r (by rw [hr]; exact List.mem_cons_self)
    exact ih hstep fun r hr => he r (List.mem_cons_of_mem _ hr)

/-- Once an update has ended well that changed the cache, a status has been stored. -/
theorem stored_of_ok (hs : Overlapping y n s) (hok : ∀ u ∈ s.updates, u.succeeded = true) {i : Nat}
    {c : Object} (hc : s.history.cached = some (i, c)) : s.history.stored ≠ none := by
  have hlt := hs.chronicle.cacher i c hc
  have hu := UpdateStage.eq_of_succeeded (hok _ (List.getElem_mem hlt))
  have hfits := hs.chronicle.fits i _ (List.getElem?_eq_getElem hlt)
  rw [hu] at hfits
  exact hfits.2 c hc

theorem durable_iff_sameStatus (hs : Overlapping y n s) {i j : Nat} {c o : Object}
    (hc : s.history.cached = some (i, c)) (ho : s.history.stored = some (j, o)) :
    Durable s.site (y.manager.recordName n) ↔ RecordType.sameStatus c o = true := by
  have hface : s.site.manager.face? (y.manager.recordName n) = some (RecordType.face c) := by
    rw [hs.mirrored.cached, hc]
    rfl
  obtain ⟨c', hc', he⟩ := VersionManager.face?_eq_some.mp hface
  obtain ⟨-, hstatus⟩ := RecordType.face_eq.mp he
  obtain ⟨p, hp, hps⟩ := hs.mirrored.stored j o ho
  have hname : c'.name = y.manager.ownName (y.manager.recordName n) := by
    rw [← hs.mirrored.named, VersionManager.ownName, hc']
  rw [← RecordType.sameStatus_congr hstatus hps]
  constructor
  · rintro ⟨c'', p', hcached, hstored, hsame⟩
    rw [Site.cached?, hc'] at hcached
    cases hcached
    rw [hname, hp] at hstored
    cases hstored
    exact hsame
  · intro hsame
    refine ⟨c', p, hc', ?_, hsame⟩
    rw [hname]
    exact hp

/-- If no update changed the cache, the record is the one that the sync has loaded. -/
theorem durable_of_uncached {x : Site} (hs : Overlapping y n s) (hsync : SyncRun x y)
    (hnew : x.manager.records = .empty) (hfiled : x.store.Filed) (hc : s.history.cached = none)
    {status : VersionStatus} (hst : y.manager.status? (y.manager.recordName n) = some status) :
    Durable s.site (y.manager.recordName n) := by
  have ho : s.history.stored = none := by
    by_contra hne
    exact hs.chronicle.first hne hc
  obtain ⟨c, hcached, hstatus⟩ := Option.bind_eq_some_iff.mp hst
  obtain ⟨hstored, -, -⟩ := (hsync.cached?_iff hfiled hnew).mp hcached
  have hname : c.name = y.manager.recordName n := hsync.filed hfiled y.kind _ c hstored
  have hown : y.manager.ownName (y.manager.recordName n) = y.manager.recordName n := by
    rw [VersionManager.ownName, hcached]
    exact hname
  have hface : s.site.manager.face? (y.manager.recordName n) = some (RecordType.face c) := by
    rw [hs.mirrored.cached, hc]
    exact VersionManager.face?_eq_some.mpr ⟨c, hcached, rfl⟩
  obtain ⟨c', hc', he⟩ := VersionManager.face?_eq_some.mp hface
  obtain ⟨hname', hstatus'⟩ := RecordType.face_eq.mp he
  have hkept := hs.mirrored.untouched ho
  rw [hown, hstored] at hkept
  refine ⟨c', c, hc', ?_, RecordType.sameStatus_of_eq (hstatus'.trans hstatus) hstatus⟩
  rw [hname', hname]
  exact hkept (Option.some_ne_none c)

end Overlapping

/-- When overlapping updates of one resource, begun after a sync, have all returned ok, the record
is durable exactly if the update that was last to leave its first part and the one that was last
to store its status made records that say the same, as they do if they are one update. -/
theorem durable_of_overlapping_ok {x y : Site} {namespaced : Bool}
    {federatedKind targetKind : String} {scope : Option String}
    (hnew : x.manager = .new namespaced federatedKind targetKind scope)
    (hfiled : x.store.Filed) (hsync : SyncRun x y) {n : Name} {events : List Event} {s : Session}
    (hs : (Session.new y).run events = s) (hsame : ∀ r, .start r ∈ events → r.resource.name = n)
    (hsome : s.updates ≠ []) (hok : ∀ u ∈ s.updates, u.succeeded = true) :
    (Durable s.site (y.manager.recordName n) ↔ s.history.Settled) ∧
      (s.history.cached.map Prod.fst = s.history.stored.map Prod.fst →
        Durable s.site (y.manager.recordName n)) := by
  have hempty : x.manager.records = .empty := by
    rw [hnew]
    rfl
  have ho : Overlapping y n s := hs ▸ (Overlapping.new y n).run hsame
  have hiff : Durable s.site (y.manager.recordName n) ↔ s.history.Settled := by
    cases hc : s.history.cached with
    | none =>
      have hlt : 0 < s.updates.length := List.length_pos_iff.mpr hsome
      have hu := UpdateStage.eq_of_succeeded (hok _ (List.getElem_mem hlt))
      have hfits := ho.chronicle.fits 0 _ (List.getElem?_eq_getElem hlt)
      rw [hu] at hfits
      obtain ⟨status, hst⟩ := hfits.1.resolve_left (fun hne => hne hc)
      constructor
      · intro _ i c j o hcached
        rw [hc] at hcached
        cases hcached
      · intro _
        exact ho.durable_of_uncached hsync hempty hfiled hc hst
    | some e =>
      obtain ⟨i, c⟩ := e
      obtain ⟨⟨j, o⟩, hst⟩ := Option.ne_none_iff_exists'.mp (ho.stored_of_ok hok hc)
      rw [ho.durable_iff_sameStatus hc hst]
      constructor
      · intro h i' c' j' o' hc' hst'
        rw [hc] at hc'
        rw [hst] at hst'
        cases hc'
        cases hst'
        exact h
      · intro h
        exact h i c j o hc hst
  exact ⟨hiff, fun he => hiff.mpr (ho.chronicle.settled he)⟩

namespace Sample

/-- The second update overtakes the first one, which then writes over it. -/
def overtaking : List Event :=
  [.start (request "1"), .start (request "2"), .go 0 0, .go 1 0, .go 1 0, .go 1 0, .go 1 0,
    .go 0 0, .go 0 100, .go 0 100, .go 0 100, .go 0 100]

def overtaken : Session := (Session.new synced).run overtaking

theorem resource_overtaking (r : UpdateRequest) (h : .start r ∈ overtaking) :
    r.resource.name = resource.name := by
  simp only [overtaking, List.mem_cons, Event.start.injEq, reduceCtorEq, List.not_mem_nil,
    or_false] at h
  rcases h with rfl | rfl <;> rfl

end Sample

/-- Without any fault two updates return ok, and the older one is what is stored. -/
theorem durable_of_overlapping_ok_sample : (∀ u ∈ Sample.overtaken.updates, u.succeeded = true) ∧
    ¬ Durable Sample.overtaken.site (Sample.synced.manager.recordName Sample.resource.name) := by
  have hok : ∀ u ∈ Sample.overtaken.updates, u.succeeded = true := by decide +kernel
  have hsome : Sample.overtaken.updates ≠ [] := List.ne_nil_of_length_pos (by decide +kernel)
  obtain ⟨hiff, -⟩ := durable_of_overlapping_ok (by rfl) Sample.filed_start Sample.sync (by rfl)
    Sample.resource_overtaking hsome hok
  refine ⟨hok, ?_⟩
  rw [hiff]
  decide +kernel

end FedTrack
