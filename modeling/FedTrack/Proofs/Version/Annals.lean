import FedTrack.Proofs.Version.Durability
import FedTrack.Proofs.Version.Errand

namespace FedTrack

open MemoryStore

/-- Where a cached record or a stored one comes from. -/
inductive Source
  /-- It was stored before all else. -/
  | before
  /-- The sync loaded it. -/
  | sync
  /-- The `i`th update made it. -/
  | update (i : Nat)
  /-- The `i`th update created it, so far without a status. -/
  | created (i : Nat)
  deriving DecidableEq

/-- What was cached last under each key, what was stored last under each name, and what was stored
there when the sync last listed. -/
structure Annals where
  cached : Name → Option (Source × Object)
  stored : Name → Option (Source × Object)
  listed : Name → Option (Source × Object)

/-- The listed record that is loaded under `key`. -/
def VersionManager.listed? (m : VersionManager) (listed : List Object) (key : Name) :
    Option Object :=
  (listed.filter fun o => m.owns o.name ∧ o.name = key).getLast?

namespace Annals

def begin (x : Site) : Annals :=
  ⟨fun _ => none, fun n => (x.stored? n).map (.before, ·), fun _ => none⟩

def cache (a : Annals) (key : Name) (e : Source × Object) : Annals :=
  { a with cached := fun k => if key = k then some e else a.cached k }

def store (a : Annals) (name : Name) (e : Source × Object) : Annals :=
  { a with stored := fun n => if name = n then some e else a.stored n }

/-- An object that was not there has appeared in the store. -/
def appear (a : Annals) (i : Nat) (name : Name) : Option Object → Option Object → Annals
  | none, some o => a.store name (.created i, o)
  | _, _ => a

/-- The `i`th update has taken a step that led from `x` to `y`. -/
def note (a : Annals) (i : Nat) (x y : Site) : UpdateStage → UpdateStage → Annals
  | .preparing _, .writing key w => a.cache key (.update i, w.record)
  | .writing _ w, .adopting _ _ => a.store w.record.name (.update i, w.record)
  | .writing _ w, _ => a.appear i w.record.name (x.stored? w.record.name) (y.stored? w.record.name)
  | _, _ => a

/-- The sync has taken a step. -/
def noteSync (a : Annals) (m : VersionManager) : Errand → Annals
  | .syncing .listing => { a with listed := a.stored }
  | .loading (.ok (.objects l)) =>
    { a with cached := fun key => ((m.listed? l key).map (.sync, ·)).or (a.cached key) }
  | _ => a

/-- The record cached last under `key` and the one stored last under its name say the same. -/
def Settled (a : Annals) (key : Name) : Prop :=
  Agree (fun k => (a.cached k).map Prod.snd) (fun n => (a.stored n).map Prod.snd) key

instance (a : Annals) (key : Name) : Decidable (a.Settled key) :=
  inferInstanceAs (Decidable (Agree _ _ key))

end Annals

/-- What is cached matters by its name and status alone, what is stored by its status. -/
theorem Agree.congr {cached cached' stored stored' : Name → Option Object} {key : Name}
    (hc : (cached key).map RecordType.face = (cached' key).map RecordType.face)
    (hs : ∀ n, (stored n).map RecordType.status? = (stored' n).map RecordType.status?)
    (h : Agree cached stored key) : Agree cached' stored' key := by
  obtain ⟨c, o, hcached, hstored, hsame⟩ := h
  rw [hcached, Option.map_some] at hc
  obtain ⟨c', hc', hface⟩ := Option.map_eq_some_iff.mp hc.symm
  obtain ⟨hname, hstatus⟩ := RecordType.face_eq.mp hface
  have ho := hs c.name
  rw [hstored, Option.map_some] at ho
  obtain ⟨o', ho', hso⟩ := Option.map_eq_some_iff.mp ho.symm
  refine ⟨c', o', hc', ?_, ?_⟩
  · rw [hname]
    exact ho'
  · rw [RecordType.sameStatus_congr hstatus hso]
    exact hsame

namespace Annals

theorem Settled.intro {a : Annals} {key : Name} {p q : Source × Object}
    (hp : a.cached key = some p) (hq : a.stored p.2.name = some q)
    (hsame : RecordType.sameStatus p.2 q.2 = true) : a.Settled key := by
  refine ⟨p.2, q.2, ?_, ?_, hsame⟩
  · simp only [hp, Option.map_some]
  · simp only [hq, Option.map_some]

/-- Of the `j`th update there is nothing new in `b`. -/
def Within (j : Nat) (b a : Annals) : Prop :=
  (∀ key c, b.cached key = some (.update j, c) → a.cached key = some (.update j, c)) ∧
    ∀ n o, b.stored n = some (.update j, o) → a.stored n = some (.update j, o)

/-- The `i`th update has neither cached nor stored a record. -/
def Untouched (a : Annals) (i : Nat) : Prop :=
  (∀ key c, a.cached key ≠ some (.update i, c)) ∧ ∀ n o, a.stored n ≠ some (.update i, o)

/-- What the stage of the `i`th update tells: a record that it cached or stored is the one that it
made. -/
def Suits (a : Annals) (i : Nat) : UpdateStage → Prop
  | .preparing _ => a.Untouched i
  | .writing _ w => (∀ key c, a.cached key = some (.update i, c) → c = w.record) ∧
      ∀ n o, a.stored n ≠ some (.update i, o)
  | .adopting _ _ | .finished _ => ∀ key c n o, a.cached key = some (.update i, c) →
      a.stored n = some (.update i, o) → c = o

variable {a b : Annals} {i j : Nat}

@[simp] theorem cached_cache (a : Annals) (key k : Name) (e : Source × Object) :
    (a.cache key e).cached k = if key = k then some e else a.cached k := rfl

@[simp] theorem stored_cache (a : Annals) (key : Name) (e : Source × Object) :
    (a.cache key e).stored = a.stored := rfl

@[simp] theorem stored_store (a : Annals) (name n : Name) (e : Source × Object) :
    (a.store name e).stored n = if name = n then some e else a.stored n := rfl

@[simp] theorem cached_store (a : Annals) (name : Name) (e : Source × Object) :
    (a.store name e).cached = a.cached := rfl

/-- An entry of another origin was there before. -/
theorem cached_of_cache {key k : Name} {e f : Source × Object}
    (h : (a.cache key e).cached k = some f) (hne : e.1 ≠ f.1) : a.cached k = some f := by
  rw [cached_cache] at h
  split at h
  · cases h
    exact absurd rfl hne
  · exact h

theorem stored_of_store {name n : Name} {e f : Source × Object}
    (h : (a.store name e).stored n = some f) (hne : e.1 ≠ f.1) : a.stored n = some f := by
  rw [stored_store] at h
  split at h
  · cases h
    exact absurd rfl hne
  · exact h

theorem within_refl (j : Nat) (a : Annals) : Within j a a := ⟨fun _ _ h => h, fun _ _ h => h⟩

theorem Untouched.within (h : a.Untouched j) (hb : Within j b a) : b.Untouched j :=
  ⟨fun key c hc => h.1 key c (hb.1 key c hc), fun n o ho => h.2 n o (hb.2 n o ho)⟩

theorem Suits.within {u : UpdateStage} (h : a.Suits j u) (hb : Within j b a) : b.Suits j u := by
  cases u with
  | preparing r => exact Untouched.within h hb
  | writing name w =>
    exact ⟨fun key c hc => h.1 key c (hb.1 key c hc), fun n o ho => h.2 n o (hb.2 n o ho)⟩
  | adopting name version =>
    exact fun key c n o hc ho => h key c n o (hb.1 key c hc) (hb.2 n o ho)
  | finished result => exact fun key c n o hc ho => h key c n o (hb.1 key c hc) (hb.2 n o ho)

theorem within_appear (name : Name) (o p : Option Object) : Within j (a.appear i name o p) a := by
  unfold appear
  split
  · exact ⟨fun _ _ hc => hc, fun n q hq => stored_of_store hq nofun⟩
  · exact within_refl j a

theorem within_note (hne : i ≠ j) (x y : Site) (u u' : UpdateStage) :
    Within j (a.note i x y u u') a := by
  have hsource : Source.update i ≠ .update j := fun he => hne (Source.update.inj he)
  unfold note
  split
  · exact ⟨fun key c hc => cached_of_cache hc hsource, fun _ _ ho => ho⟩
  · exact ⟨fun _ _ hc => hc, fun n o ho => stored_of_store ho hsource⟩
  · exact within_appear _ _ _
  · exact within_refl j a

theorem within_noteSync (j : Nat) (a : Annals) (m : VersionManager) (e : Errand) :
    Within j (a.noteSync m e) a := by
  unfold noteSync
  split
  · exact within_refl j a
  · refine ⟨?_, fun n o ho => ho⟩
    intro key c hc
    rcases Option.or_eq_some_iff.mp hc with hl | ⟨-, hc⟩
    · obtain ⟨o, -, ho⟩ := Option.map_eq_some_iff.mp hl
      cases ho
    · exact hc
  · exact within_refl j a

/-- No record is cached that the sync has loaded. -/
def Unloaded (a : Annals) : Prop := ∀ key c, a.cached key ≠ some (.sync, c)

/-- What the sync has at hand, or has loaded, is what was stored when it listed. -/
def Shown (a : Annals) : Errand ⊕ Reply → Prop
  | .inl (.syncing _) => a.Unloaded
  | .inl (.loading outcome) => a.Unloaded ∧ ∀ l, outcome = .ok (.objects l) → ∀ o ∈ l,
      ∃ e, a.listed o.name = some e ∧ RecordType.status? e.2 = RecordType.status? o
  | .inl _ => False
  | .inr _ => ∀ key c, a.cached key = some (.sync, c) → c.name = key ∧
      ∃ e, a.listed key = some e ∧ RecordType.status? e.2 = RecordType.status? c

/-- The sync is as it was if it has loaded nothing more and the listing is the same one. -/
theorem Shown.mono {sync : Errand ⊕ Reply} (h : a.Shown sync) (hl : b.listed = a.listed)
    (hc : ∀ key c, b.cached key = some (.sync, c) → a.cached key = some (.sync, c)) :
    b.Shown sync := by
  have hunloaded (hu : a.Unloaded) : b.Unloaded := fun key c hb => hu key c (hc key c hb)
  cases sync with
  | inr r =>
    intro key c hb
    rw [hl]
    exact h key c (hc key c hb)
  | inl e =>
    cases e with
    | syncing stage => exact hunloaded h
    | loading outcome =>
      refine ⟨hunloaded h.1, ?_⟩
      rw [hl]
      exact h.2
    | updating u => exact h
    | getting resource => exact h
    | deleting resource => exact h

theorem Shown.note {sync : Errand ⊕ Reply} (h : a.Shown sync) (i : Nat) (x y : Site)
    (u u' : UpdateStage) : (a.note i x y u u').Shown sync := by
  unfold Annals.note
  split
  · exact h.mono rfl fun key c hc => cached_of_cache hc nofun
  · exact h.mono rfl fun key c hc => hc
  · unfold appear
    split
    · exact h.mono rfl fun key c hc => hc
    · exact h
  · exact h

end Annals

/-- The annals are right about what counts of the cached records and of the stored ones. -/
structure Annals.Right (a : Annals) (x : Site) : Prop where
  filed : x.store.Filed
  cached : ∀ key, x.manager.face? key = (a.cached key).map fun e => RecordType.face e.2
  stored : ∀ n, (x.stored? n).map RecordType.status? =
    (a.stored n).map fun e => RecordType.status? e.2

namespace Annals.Right

variable {a : Annals} {x y : Site}

theorem begin (hf : x.store.Filed) (hnew : x.manager.records = .empty) :
    (Annals.begin x).Right x := by
  refine ⟨hf, ?_, ?_⟩
  · intro key
    rw [VersionManager.face?, hnew, Table.find?_empty]
    rfl
  · intro n
    rw [Annals.begin, Option.map_map]
    rfl

theorem settled_iff (h : a.Right x) (key : Name) : Durable x key ↔ a.Settled key := by
  have hc : (x.cached? key).map RecordType.face =
      ((a.cached key).map Prod.snd).map RecordType.face := by
    rw [Option.map_map]
    exact h.cached key
  have hs (n : Name) : (x.stored? n).map RecordType.status? =
      ((a.stored n).map Prod.snd).map RecordType.status? := by
    rw [Option.map_map]
    exact h.stored n
  exact ⟨fun hd => hd.congr hc hs, fun hd => hd.congr hc.symm fun n => (hs n).symm⟩

theorem quiet (h : a.Right x) (hm : y.manager.setup = x.manager.setup)
    (hface : ∀ key, y.manager.face? key = x.manager.face? key)
    (hs : y.store.objects = x.store.objects) : a.Right y := by
  refine ⟨filed_congr hs h.filed, ?_, ?_⟩
  · intro key
    rw [hface]
    exact h.cached key
  · intro n
    rw [Site.stored?, Site.kind_congr hm, find?_congr hs]
    exact h.stored n

theorem cache (h : a.Right x) (src : Source) (key : Name) (record : Object) :
    (a.cache key (src, record)).Right ⟨x.manager.cache key record, x.store⟩ := by
  refine ⟨h.filed, ?_, h.stored⟩
  intro k
  rw [VersionManager.face?_cache, cached_cache]
  split
  · rfl
  · exact h.cached k

/-- One object is put in the store. -/
theorem put (h : a.Right x) (src : Source) {name : Name} {o p : Object}
    (hstatus : RecordType.status? o = RecordType.status? p) (hm : y.manager = x.manager)
    (hput : Put x.kind name o x.store y.store) (hf : y.store.Filed) :
    (a.store name (src, p)).Right y := by
  have hk : y.kind = x.kind := Site.kind_congr (by rw [hm])
  refine ⟨hf, ?_, ?_⟩
  · intro key
    rw [hm]
    exact h.cached key
  · intro n
    rw [Site.stored?, hk, hput, stored_store]
    by_cases hn : name = n
    · rw [if_pos ⟨rfl, hn⟩, if_pos hn, Option.map_some, Option.map_some, hstatus]
    · rw [if_neg fun he => hn he.2, if_neg hn]
      exact h.stored n

theorem appear (h : a.Right x) (i : Nat) {name : Name} (hm : y.manager = x.manager)
    (hs : Opened x.kind name x.store y.store) (hf : y.store.Filed) :
    (a.appear i name (x.stored? name) (y.stored? name)).Right y := by
  have hk : y.kind = x.kind := Site.kind_congr (by rw [hm])
  rcases hs with hs | ⟨hnone, o, -, hput⟩
  · have hsame (n : Name) : y.stored? n = x.stored? n := by
      rw [Site.stored?, hk]
      exact hs x.kind n
    have ha : a.appear i name (x.stored? name) (x.stored? name) = a := by
      cases x.stored? name <;> rfl
    rw [hsame, ha]
    refine ⟨hf, ?_, ?_⟩
    · intro key
      rw [hm]
      exact h.cached key
    · intro n
      rw [hsame]
      exact h.stored n
  · have hx : x.stored? name = none := hnone
    have hy : y.stored? name = some o := by
      rw [Site.stored?, hk]
      exact hput.at
    rw [hx, hy]
    exact h.put (.created i) rfl hm hput hf

/-- The annals stay right when an update takes a step. -/
theorem note (h : a.Right x) (i : Nat) (now : Time) (u : UpdateStage) :
    (a.note i x (UpdateStage.step now x u).1 u (UpdateStage.step now x u).2).Right
      (UpdateStage.step now x u).1 := by
  have hf : (UpdateStage.step now x u).1.store.Filed :=
    Site.filed_step_update (z := (x, u)) now h.filed
  cases u with
  | preparing r =>
    have hb := UpdateStage.step_preparing now x r
    generalize UpdateStage.step now x (.preparing r) = z at hb ⊢
    cases hb with
    | refused hp => exact h
    | idle hp => exact h
    | changed hp => exact h.cache _ _ _
  | writing name w =>
    have hw := UpdateStage.step_writing now x name w
    generalize UpdateStage.step now x (.writing name w) = z at hw hf ⊢
    cases hw with
    | on hm hs _ => exact h.appear i hm hs hf
    | failed hm hs => exact h.appear i hm hs hf
    | saved hm hs =>
      obtain ⟨o, ho, hput⟩ := hs
      exact h.put _ ho hm hput hf
  | adopting name version =>
    exact h.quiet (VersionManager.setup_adopt _ _) (VersionManager.face?_adopt _ _ · _) rfl
  | finished result => exact h

end Annals.Right

namespace Annals

variable {a : Annals} {x : Site}

/-- After a step of its own an update is where the annals have it. -/
theorem suits_note {i : Nat} {u : UpdateStage} (h : a.Suits i u) (now : Time) (x : Site) :
    (a.note i x (UpdateStage.step now x u).1 u (UpdateStage.step now x u).2).Suits i
      (UpdateStage.step now x u).2 := by
  cases u with
  | preparing r =>
    have hb := UpdateStage.step_preparing now x r
    generalize UpdateStage.step now x (.preparing r) = z at hb ⊢
    cases hb with
    | refused hp => exact fun key c _ _ hc => absurd hc (h.1 key c)
    | idle hp => exact fun key c _ _ hc => absurd hc (h.1 key c)
    | @changed w hp =>
      refine ⟨?_, h.2⟩
      intro key c hc
      rw [note, cached_cache] at hc
      split at hc
      · cases hc
        rfl
      · exact absurd hc (h.1 key c)
  | writing name w =>
    have hw := UpdateStage.step_writing now x name w
    generalize UpdateStage.step now x (.writing name w) = z at hw ⊢
    cases hw with
    | @on y w' hm hs hrecord =>
      have hstage : a.Suits i (.writing name w') := by
        rw [Suits, hrecord]
        exact h
      exact hstage.within (within_appear _ _ _)
    | failed hm hs =>
      have hdone : a.Suits i (.finished (.ok ())) := fun key c n o _ ho => absurd ho (h.2 n o)
      exact hdone.within (within_appear _ _ _)
    | saved hm hs =>
      intro key c n o hc ho
      rw [note, stored_store] at ho
      split at ho
      · cases ho
        exact h.1 key c hc
      · exact absurd ho (h.2 n o)
  | adopting name version => exact h
  | finished result => exact h

/-- Every record that an update caches can be read. -/
def Readable (a : Annals) : Prop :=
  ∀ key i c, a.cached key = some (.update i, c) → ∃ status, RecordType.status? c = some status

theorem cached_note_writing (a : Annals) (i : Nat) (x y : Site) (name : Name) (w : Write)
    (u : UpdateStage) : (a.note i x y (.writing name w) u).cached = a.cached := by
  have happear (n : Name) (o p : Option Object) : (a.appear i n o p).cached = a.cached := by
    unfold appear
    split <;> rfl
  cases u with
  | adopting name version => rfl
  | preparing r => exact happear _ _ _
  | writing name w => exact happear _ _ _
  | finished result => exact happear _ _ _

theorem readable_note (h : a.Readable) (i : Nat) (now : Time) (x : Site) (u : UpdateStage) :
    (a.note i x (UpdateStage.step now x u).1 u (UpdateStage.step now x u).2).Readable := by
  cases u with
  | preparing r =>
    have hb := UpdateStage.step_preparing now x r
    generalize UpdateStage.step now x (.preparing r) = z at hb ⊢
    cases hb with
    | refused hp => exact h
    | idle hp => exact h
    | @changed w hp =>
      obtain ⟨-, -, status, -, hstatus⟩ := VersionManager.prepare_some hp
      intro key j c hc
      rw [note, cached_cache] at hc
      split at hc
      · cases hc
        exact ⟨status, hstatus⟩
      · exact h key j c hc
  | writing name w =>
    intro key j c hc
    rw [cached_note_writing] at hc
    exact h key j c hc
  | adopting name version => exact h
  | finished result => exact h

end Annals

namespace Errand

/-- What a listing answers is what is stored. -/
theorem stored?_of_listed {x : Site} (hf : x.store.Filed) {l : List Object}
    (h : (x.call (SyncStage.call x.manager)).2 = .ok (.objects l)) {o : Object} (ho : o ∈ l) :
    x.stored? o.name = some o := by
  rcases x.call_cases (SyncStage.call x.manager) with ⟨⟨e, he⟩, -⟩ | ⟨t, ht, hcall, -⟩
  · cases he.symm.trans h
  · obtain ⟨hr, -⟩ := t.commit_list x.kind x.manager.scope
    rw [hcall, SyncStage.call, hr] at h
    cases h
    have hmem := (List.mem_filter.mp ho).1
    rw [(filed_congr ht hf).mem_ofKind, find?_congr ht] at hmem
    exact hmem

theorem objects_listing (x : Site) :
    (x.call (SyncStage.call x.manager)).1.store.objects = x.store.objects := by
  rcases x.call_cases (SyncStage.call x.manager) with ⟨-, ho⟩ | ⟨t, ht, -, hstore⟩
  · exact ho
  · rw [hstore, SyncStage.call, (t.commit_list x.kind x.manager.scope).2, ht]

end Errand

end FedTrack
