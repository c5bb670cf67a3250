import FedTrack.Proofs.Version.Runs

namespace FedTrack

open MemoryStore

/-- Under `key` a record is cached, and one of its name is stored with an equivalent status. -/
def Agree (cached stored : Name → Option Object) (key : Name) : Prop :=
  ∃ c o, cached key = some c ∧ stored c.name = some o ∧ RecordType.sameStatus c o = true

instance (cached stored : Name → Option Object) (key : Name) :
    Decidable (Agree cached stored key) :=
  decidable_of_iff
    (((cached key).any fun c => (stored c.name).any (RecordType.sameStatus c)) = true)
    (by simp [Agree, Option.any_eq_true, ← exists_and_left])

/-- What the cache says under `key` is also what the store says. -/
def Durable (x : Site) (key : Name) : Prop := Agree x.cached? x.stored? key

/-- What the results of the calls tell: the record cached last under each key, and the record
whose status was stored last under each name. -/
structure Ledger where
  cached : Name → Option Object
  stored : Name → Option Object

namespace Ledger

def of (x : Site) : Ledger := ⟨x.cached?, x.stored?⟩

def put (f : Name → Option Object) (name : Name) (o : Option Object) : Name → Option Object :=
  fun n => if name = n then o else f n

/-- A failed update leaves its record in the cache alone. -/
def step (m : VersionManager) (b : Ledger) : Entry → Ledger
  | .update r (some record) (.ok _) =>
    ⟨put b.cached (m.recordName r.resource.name) (some record),
      put b.stored record.name (some record)⟩
  | .update r (some record) (.error _) =>
    { b with cached := put b.cached (m.recordName r.resource.name) (some record) }
  | .update _ none _ => b
  | .get _ => b
  | .delete n => { b with cached := put b.cached (m.recordName n) none }

def replay (m : VersionManager) (b : Ledger) (l : List Entry) : Ledger := l.foldl (step m) b

def Agrees (b : Ledger) (key : Name) : Prop := Agree b.cached b.stored key

instance (b : Ledger) (key : Name) : Decidable (b.Agrees key) :=
  inferInstanceAs (Decidable (Agree b.cached b.stored key))

theorem replay_concat (m : VersionManager) (b : Ledger) (l : List Entry) (e : Entry) :
    replay m b (l ++ [e]) = step m (replay m b l) e := by
  rw [replay, List.foldl_append]
  rfl

end Ledger

/-- The ledger is right about what counts of the cached records, and about the statuses of the
stored ones, but for records that were only created. No cached record has such a status. -/
structure Recorded (x : Site) (b : Ledger) : Prop where
  cached : ∀ key, x.manager.face? key = (b.cached key).map RecordType.face
  stored : ∀ name o, b.stored name = some o →
    ∃ p, x.stored? name = some p ∧ RecordType.status? p = RecordType.status? o
  created : ∀ name p, b.stored name = none → x.stored? name = some p →
    RecordType.status? p = some .empty
  filled : ∀ key name status, x.manager.face? key = some (name, status) → b.stored name = none →
    ∃ s, status = some s ∧ s.template ≠ ""

namespace Recorded

variable {x y : Site} {b : Ledger}

theorem durable_iff (h : Recorded x b) (key : Name) : Durable x key ↔ b.Agrees key := by
  have hc := h.cached key
  constructor
  · rintro ⟨c, o, hcached, hstored, hsame⟩
    have hface : x.manager.face? key = some (RecordType.face c) :=
      VersionManager.face?_eq_some.mpr ⟨c, hcached, rfl⟩
    obtain ⟨c', hc', he⟩ := Option.map_eq_some_iff.mp (hc.symm.trans hface)
    obtain ⟨hname, hstatus⟩ := RecordType.face_eq.mp he
    cases hb : b.stored c.name with
    | none =>
      -- a record that was only created has no status like a cached one
      obtain ⟨s, hs, hne⟩ := h.filled key c.name _ hface hb
      have ho := h.created c.name o hb hstored
      rw [RecordType.sameStatus_created hs hne ho] at hsame
      cases hsame
    | some o' =>
      obtain ⟨p, hp, hpst⟩ := h.stored c.name o' hb
      rw [hstored] at hp
      cases hp
      refine ⟨c', o', hc', ?_, ?_⟩
      · rw [hname]
        exact hb
      · rw [RecordType.sameStatus_congr hstatus hpst.symm]
        exact hsame
  · rintro ⟨c, o, hcached, hstored, hsame⟩
    rw [hcached, Option.map_some] at hc
    obtain ⟨c', hc', he⟩ := VersionManager.face?_eq_some.mp hc
    obtain ⟨hname, hstatus⟩ := RecordType.face_eq.mp he
    obtain ⟨p, hp, hpst⟩ := h.stored c.name o hstored
    refine ⟨c', p, hc', ?_, ?_⟩
    · rw [hname]
      exact hp
    · rw [RecordType.sameStatus_congr hstatus hpst]
      exact hsame

theorem congr (h : Recorded x b) (hm : y.manager = x.manager)
    (hs : y.store.objects = x.store.objects) : Recorded y b := by
  have hstored (name : Name) : y.stored? name = x.stored? name := by
    rw [Site.stored?, Site.kind, hm, MemoryStore.find?_congr hs]
    rfl
  refine ⟨?_, ?_, ?_, ?_⟩
  · rw [hm]
    exact h.cached
  · intro name o ho
    rw [hstored]
    exact h.stored name o ho
  · intro name p hb hp
    rw [hstored] at hp
    exact h.created name p hb hp
  · rw [hm]
    exact h.filled

theorem of_sync (h : SyncRun x y) (hnew : x.manager.records = .empty) (hf : x.store.Filed) :
    Recorded y (Ledger.of y) := by
  refine ⟨fun _ => rfl, ?_, ?_, ?_⟩
  · intro name o ho
    exact ⟨o, ho, rfl⟩
  · intro name p hb hp
    have hnone : y.stored? name = none := hb
    rw [hnone] at hp
    cases hp
  · intro key name status hface hb
    have hnone : y.stored? name = none := hb
    obtain ⟨c, hc, he⟩ := VersionManager.face?_eq_some.mp hface
    cases he
    obtain ⟨hs, -, -⟩ := (h.cached?_iff hf hnew).mp hc
    have hname : c.name = key := h.filed hf y.kind key c hs
    rw [hname, hs] at hnone
    cases hnone

theorem delete (h : Recorded x b) {m : VersionManager} (hm : x.manager.setup = m.setup) (n : Name) :
    Recorded ⟨x.manager.delete n, x.store⟩ (b.step m (.delete n)) := by
  have hn := VersionManager.recordName_congr hm n
  refine ⟨?_, h.stored, h.created, ?_⟩
  · intro key
    simp only [VersionManager.face?_delete, hn, Ledger.step, Ledger.put]
    split
    · rfl
    · exact h.cached key
  · intro key name status hface hb
    rw [VersionManager.face?_delete] at hface
    split at hface
    · cases hface
    · exact h.filled key name status hface hb

section Update

variable {r : UpdateRequest} {m m' : VersionManager} {record : Object}

/-- The status of a written record is stored, and the cache keeps the record. -/
theorem written (h : Recorded x b) (hm : x.manager.setup = m.setup) {version : Option String}
    (hp : x.manager.prepare r = .ok (m', some record)) (hy : y.manager = m'.adopt (x.key r) version)
    (hs : Saved x.kind record x.store y.store) :
    Recorded y (b.step m (.update r (some record) (.ok ()))) := by
  have hn := VersionManager.recordName_congr hm r.resource.name
  have hk : y.kind = x.kind := by
    apply Site.kind_congr
    rw [hy, VersionManager.setup_adopt]
    exact VersionManager.setup_prepare hp
  obtain ⟨rfl, -, -⟩ := VersionManager.prepare_some hp
  obtain ⟨o, ho, hput⟩ := hs
  have hstored (name : Name) :
      y.stored? name = if record.name = name then some o else x.stored? name := by
    rw [Site.stored?, hk, hput x.kind name]
    simp only [true_and]
    rfl
  refine ⟨?_, ?_, ?_, ?_⟩
  · intro key
    rw [hy, VersionManager.face?_adopt, VersionManager.face?_cache]
    simp only [Ledger.step, Ledger.put, ← hn]
    split
    · rfl
    · exact h.cached key
  · intro name p hb
    simp only [Ledger.step, Ledger.put] at hb
    rw [hstored]
    split at hb
    · rename_i hname
      cases hb
      exact ⟨o, if_pos hname, ho⟩
    · rename_i hname
      rw [if_neg hname]
      exact h.stored name p hb
  · intro name p hb hf
    simp only [Ledger.step, Ledger.put] at hb
    rw [hstored] at hf
    split at hb
    · cases hb
    · rename_i hname
      rw [if_neg hname] at hf
      exact h.created name p hb hf
  · intro key name status hface hb
    simp only [Ledger.step, Ledger.put] at hb
    rw [hy, VersionManager.face?_adopt, VersionManager.face?_cache] at hface
    split at hb
    · cases hb
    · rename_i hname
      split at hface
      · cases hface
        exact absurd rfl hname
      · exact h.filled key name status hface hb

/-- A lost record is cached with the status that was asked for; at most it has been created. -/
theorem lost (h : Recorded x b) (hm : x.manager.setup = m.setup) {e : VersionError}
    (hp : x.manager.prepare r = .ok (m', some record)) (hy : y.manager = m')
    (hs : Opened x.kind record.name x.store y.store) :
    Recorded y (b.step m (.update r (some record) (.error e))) := by
  have hn := VersionManager.recordName_congr hm r.resource.name
  have hk : y.kind = x.kind := by
    apply Site.kind_congr
    rw [hy]
    exact VersionManager.setup_prepare hp
  obtain ⟨rfl, -, asked, hasked, hstatus⟩ := VersionManager.prepare_some hp
  refine ⟨?_, ?_, ?_, ?_⟩
  · intro key
    rw [hy, VersionManager.face?_cache]
    simp only [Ledger.step, Ledger.put, ← hn]
    split
    · rfl
    · exact h.cached key
  · intro name p hb
    have hx := h.stored name p hb
    rcases hs with hs | ⟨hnone, o, -, hput⟩
    · rw [Site.stored?, hk, hs]
      exact hx
    · obtain ⟨q, hq, hqs⟩ := hx
      refine ⟨q, ?_, hqs⟩
      rw [Site.stored?, hk, hput, if_neg]
      · exact hq
      · rintro ⟨-, rfl⟩
        rw [Site.stored?, hnone] at hq
        cases hq
  · intro name p hb hf
    rw [Site.stored?, hk] at hf
    rcases hs with hs | ⟨-, o, ho, hput⟩
    · rw [hs] at hf
      exact h.created name p hb hf
    · rw [hput] at hf
      split at hf
      · cases hf
        exact ho
      · exact h.created name p hb hf
  · intro key name status hface hb
    rw [hy, VersionManager.face?_cache] at hface
    split at hface
    · cases hface
      exact ⟨asked, hstatus, VersionManager.template_asked? hasked⟩
    · exact h.filled key name status hface hb

theorem updated (h : Recorded x b) (hm : x.manager.setup = m.setup)
    {result : Except VersionError Unit} (hu : Updated x r y result) :
    Recorded y (b.step m (.update r (x.manager.recordToWrite? r) result)) := by
  cases hu with
  | refused e hp hy hs =>
    simp only [VersionManager.recordToWrite?, hp]
    exact h.congr hy hs
  | idle hp hy hs =>
    simp only [VersionManager.recordToWrite?, hp]
    exact h.congr hy hs
  | written m' record version hp hy hs =>
    simp only [VersionManager.recordToWrite?, hp]
    exact h.written hm hp hy hs
  | lost m' record cause hp hy hs =>
    simp only [VersionManager.recordToWrite?, hp]
    exact h.lost hm hp hy hs

end Update

end Recorded

theorem recorded_runs {x y : Site} {b : Ledger} {l : List Entry} (hx : Recorded x b)
    (h : Runs x l y) : Recorded y (b.replay x.manager l) := by
  induction h with
  | start => exact hx
  | fault op f _ ih => exact ih.congr rfl rfl
  | update hrun hu ih =>
    rw [Ledger.replay_concat]
    exact ih.updated hrun.setup hu.updated
  | get resource _ ih =>
    rw [Ledger.replay_concat]
    exact ih
  | delete n hrun ih =>
    rw [Ledger.replay_concat]
    exact ih.delete hrun.setup n

/-- An update that wrote its record and returned ok is durable. One that found nothing to do is
so exactly if the record cached last has the status that was stored last: the record of a failed
update stays in the cache, and an update that asks for its status again returns ok without having
written it. -/
theorem durable_of_update_ok {x y z w : Site} {l : List Entry} {namespaced : Bool}
    {federatedKind targetKind : String} {scope : Option String}
    (hnew : x.manager = .new namespaced federatedKind targetKind scope) (hfiled : x.store.Filed)
    (hsync : SyncRun x y) (hrun : Runs y l z) {r : UpdateRequest} (hu : UpdateRun z r (.ok ()) w) :
    (z.manager.recordToWrite? r ≠ none → Durable w (w.key r)) ∧
      (Durable w (w.key r) ↔
        ((Ledger.of y).replay y.manager
          (l ++ [.update r (z.manager.recordToWrite? r) (.ok ())])).Agrees (w.key r)) := by
  have hempty : x.manager.records = .empty := by
    rw [hnew]
    rfl
  have hrec := recorded_runs (Recorded.of_sync hsync hempty hfiled) (hrun.update hu)
  have hiff := hrec.durable_iff (w.key r)
  refine ⟨?_, hiff⟩
  intro hwrites
  obtain ⟨record, hr⟩ := Option.ne_none_iff_exists'.mp hwrites
  have hkey : y.manager.recordName r.resource.name = w.key r :=
    ((hrun.update hu).recordName r.resource.name).symm
  obtain ⟨s, hs⟩ := VersionManager.status?_recordToWrite? hr
  apply hiff.mpr
  rw [Ledger.replay_concat, hr]
  refine ⟨record, record, ?_, ?_, RecordType.sameStatus_of_eq hs hs⟩
  · simp only [Ledger.step, Ledger.put, hkey, if_true]
  · simp only [Ledger.step, Ledger.put, if_true]

namespace Sample

/-- The record could not be created. -/
def refused : Site := (update (synced.failNext .create .forbidden) "1" 2).1

theorem update_refused : UpdateRun (synced.failNext .create .forbidden) (request "1")
    (.error (.notWritten ⟨true⟩ ⟨"apps", "deployment-web"⟩
      (.refused (.forbidden "injected fault on Create")))) refused :=
  ⟨List.replicate 2 (.go 0), rfl⟩

end Sample

/-- After a refused create the same update returns ok, and nothing is stored. -/
theorem durable_of_update_ok_sample :
    ¬ Durable (Sample.update Sample.refused "1" 1).1
      ((Sample.update Sample.refused "1" 1).1.key (Sample.request "1")) := by
  have hu : UpdateRun Sample.refused (Sample.request "1") (.ok ())
      (Sample.update Sample.refused "1" 1).1 :=
    .of_succeeded (by decide +kernel)
  have hrun := (Runs.start.fault .create .forbidden).update Sample.update_refused
  obtain ⟨-, hiff⟩ := durable_of_update_ok rfl Sample.filed_start Sample.sync hrun hu
  rw [hiff]
  decide +kernel

end FedTrack
