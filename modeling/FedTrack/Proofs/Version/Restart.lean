import FedTrack.Proofs.Version.Runs

namespace FedTrack

open MemoryStore

/-- Whether a resource's last update or delete was a delete. -/
def Entry.forget (n : Name) (gone : Bool) : Entry → Bool
  | .update r _ _ => gone && r.resource.name != n
  | .get _ => gone
  | .delete d => gone || d == n

def forgotten (l : List Entry) (n : Name) : Bool := l.foldl (Entry.forget n) false

theorem forgotten_concat (l : List Entry) (e : Entry) :
    forgotten (l ++ [e]) = fun n => e.forget n (forgotten l n) := by
  funext n
  rw [forgotten, List.foldl_append]
  rfl

/-- What the cache of a new manager makes of the stored record of a resource. -/
def Site.loaded? (x : Site) (n : Name) : Option (Name × Option VersionStatus) :=
  ((x.stored? (x.manager.recordName n)).filter fun _ => inScope x.manager.scope n).map
    RecordType.face

/-- The cache holds what a new one would load, but for the records that it forgot. -/
structure Kept (x : Site) (gone : Name → Bool) : Prop where
  agreed : ∀ n, gone n = false → x.manager.face? (x.manager.recordName n) = x.loaded? n
  dropped : ∀ n, gone n = true → x.manager.face? (x.manager.recordName n) = none

namespace Kept

variable {x y : Site} {gone : Name → Bool}

theorem congr (h : Kept x gone) (hm : y.manager = x.manager)
    (hs : y.store.objects = x.store.objects) : Kept y gone := by
  have hk : y.kind = x.kind := by simp only [Site.kind, hm]
  refine ⟨?_, ?_⟩
  · intro n hn
    have ha := h.agreed n hn
    rw [Site.loaded?, Site.stored?, hm, hk, find?_congr hs]
    exact ha
  · intro n hn
    rw [hm]
    exact h.dropped n hn

/-- After a sync the cache of a new manager agrees with the store. -/
theorem of_sync (h : SyncRun x y) (hnew : x.manager.records = .empty) (hf : x.store.Filed) :
    Kept y fun _ => false := by
  obtain ⟨-, hscope, -⟩ := VersionManager.setup_iff.mp h.setup
  refine ⟨?_, ?_⟩
  · intro n _
    have hfind : y.cached? (y.manager.recordName n) =
        (y.stored? (y.manager.recordName n)).filter fun _ => inScope y.manager.scope n := by
      apply Option.ext
      intro o
      rw [h.cached?_iff hf hnew, Option.filter_eq_some_iff, hscope]
      constructor
      · rintro ⟨hs, -, hi⟩
        exact ⟨hs, hi⟩
      · rintro ⟨hs, hi⟩
        refine ⟨hs, ?_, hi⟩
        rw [VersionManager.recordName_congr h.setup n]
        exact x.manager.owns_recordName n
    exact congrArg (Option.map RecordType.face) hfind
  · intro n hn
    cases hn

theorem delete (h : Kept x gone) (d : Name) :
    Kept ⟨x.manager.delete d, x.store⟩ fun n => gone n || d == n := by
  have hn := VersionManager.recordName_congr (VersionManager.setup_delete (m := x.manager) d)
  refine ⟨?_, ?_⟩
  · intro n hg
    simp only [Bool.or_eq_false_iff, beq_eq_false_iff_ne] at hg
    obtain ⟨hg, hd⟩ := hg
    have hkey : x.manager.recordName d ≠ x.manager.recordName n :=
      fun he => hd (x.manager.recordName_injective he)
    rw [hn, VersionManager.face?_delete, if_neg hkey]
    exact h.agreed n hg
  · intro n hg
    rw [hn, VersionManager.face?_delete]
    split
    · rfl
    · rename_i hne
      have hd : (d == n) = false := beq_eq_false_iff_ne.mpr fun he => hne (by rw [he])
      rw [hd, Bool.or_false] at hg
      exact h.dropped n hg

theorem idle (h : Kept x gone) {r : UpdateRequest}
    (hp : x.manager.prepare r = .ok (x.manager, none)) :
    Kept x fun n => gone n && r.resource.name != n := by
  obtain ⟨-, old, asked, -, hold, -⟩ := VersionManager.prepare_none hp
  refine ⟨?_, ?_⟩
  · intro n hg
    by_cases he : r.resource.name = n
    · subst he
      cases hgn : gone r.resource.name with
      | false => exact h.agreed _ hgn
      | true =>
        -- a record that was found cannot have been forgotten
        rw [VersionManager.status?_eq_bind_face?, h.dropped _ hgn] at hold
        cases hold
    · apply h.agreed n
      simpa [he] using hg
  · intro n hg
    simp only [Bool.and_eq_true] at hg
    exact h.dropped n hg.1

/-- In a namespaced manager the record of an update is stored under its key. -/
theorem name_record (h : Kept x gone) (hf : x.store.Filed)
    (hns : x.manager.recordType.namespaced = true) {r : UpdateRequest} {m : VersionManager}
    {record : Object} (hp : x.manager.prepare r = .ok (m, some record)) :
    record.name = x.key r := by
  obtain ⟨-, hname, -⟩ := VersionManager.prepare_some hp
  have hnew : x.manager.recordType.ownName (x.key r) = x.key r :=
    RecordType.ownName_of_namespaced hns _
  rw [hname, VersionManager.ownName_eq_face?, ← Site.key, hnew]
  cases hg : gone r.resource.name with
  | true =>
    rw [Site.key, h.dropped _ hg]
    rfl
  | false =>
    rw [Site.key, h.agreed _ hg, Site.loaded?]
    cases ho : x.stored? (x.manager.recordName r.resource.name) with
    | none => rfl
    | some o =>
      have hkey : o.name = x.manager.recordName r.resource.name := hf x.kind _ o ho
      rw [Option.filter_some]
      split
      · exact hkey
      · rfl

theorem written (h : Kept x gone) (hf : x.store.Filed)
    (hns : x.manager.recordType.namespaced = true) {r : UpdateRequest}
    (hscope : inScope x.manager.scope r.resource.name = true) {m : VersionManager} {record : Object}
    {version : Option String} (hp : x.manager.prepare r = .ok (m, some record))
    (hm : y.manager = m.adopt (x.key r) version) (hs : Saved x.kind record x.store y.store)
    (hfy : y.store.Filed) : Kept y fun n => gone n && r.resource.name != n := by
  have hname := h.name_record hf hns hp
  obtain ⟨rfl, -, -⟩ := VersionManager.prepare_some hp
  have hsetup : y.manager.setup = x.manager.setup := by
    rw [hm, VersionManager.setup_adopt, VersionManager.setup_cache]
  have hn := VersionManager.recordName_congr hsetup
  obtain ⟨-, hsc, -⟩ := VersionManager.setup_iff.mp hsetup
  have hface (key : Name) : y.manager.face? key =
      if x.key r = key then some (RecordType.face record) else x.manager.face? key := by
    rw [hm, VersionManager.face?_adopt, VersionManager.face?_cache]
    rfl
  have hkey {n : Name} (hne : r.resource.name ≠ n) : x.key r ≠ x.manager.recordName n :=
    fun he => hne (x.manager.recordName_injective he)
  refine ⟨?_, ?_⟩
  · intro n hg
    rw [hn, Site.loaded?, hn, hsc, Site.stored?, Site.kind_congr hsetup, hface]
    by_cases he : r.resource.name = n
    · subst he
      obtain ⟨o, ho, hput⟩ := hs
      rw [hname] at hput
      have hfound := hput.at
      have hoface : RecordType.face o = RecordType.face record :=
        RecordType.face_eq.mpr ⟨(hfy x.kind _ o hfound).trans hname.symm, ho⟩
      rw [Site.key] at hfound ⊢
      rw [hfound, Option.filter_some, hscope, if_pos rfl, if_pos rfl, Option.map_some, hoface]
    · rw [if_neg (hkey he), hs.elsewhere (by rw [hname]; exact (hkey he).symm)]
      apply h.agreed n
      simpa [he] using hg
  · intro n hg
    simp only [Bool.and_eq_true, bne_iff_ne, ne_eq] at hg
    rw [hn, hface, if_neg (hkey hg.2)]
    exact h.dropped n hg.1

end Kept

theorem kept_runs {x y : Site} {l : List Entry} (hx : Kept x fun _ => false) (hf : x.store.Filed)
    (hns : x.manager.recordType.namespaced = true) (h : Runs x l y) (hok : ∀ e ∈ l, e.Succeeded)
    (hscope : ∀ e ∈ l, inScope x.manager.scope e.resource = true) : Kept y (forgotten l) := by
  induction h with
  | start => exact hx
  | fault op f _ ih => exact (ih hok hscope).congr rfl rfl
  | @update l y z r result hrun hu ih =>
    obtain ⟨hl, he⟩ := List.forall_mem_append.mp hok
    obtain ⟨hls, hes⟩ := List.forall_mem_append.mp hscope
    have hr : result = .ok () := he _ (List.mem_singleton_self _)
    have hsc : inScope x.manager.scope r.resource.name = true := hes _ (List.mem_singleton_self _)
    obtain ⟨-, hs, ht⟩ := VersionManager.setup_iff.mp hrun.setup
    rw [← hs] at hsc
    rw [← ht] at hns
    subst hr
    rw [forgotten_concat]
    cases hu.updated with
    | idle hp hm hs => exact ((ih hl hls).idle hp).congr hm hs
    | written m record version hp hm hs =>
      have hfy := hrun.filed hf
      exact (ih hl hls).written hfy hns hsc hp hm hs (hu.filed hfy)
  | get resource _ ih =>
    rw [forgotten_concat]
    exact ih (List.forall_mem_append.mp hok).1 (List.forall_mem_append.mp hscope).1
  | delete n _ ih =>
    rw [forgotten_concat]
    exact (ih (List.forall_mem_append.mp hok).1 (List.forall_mem_append.mp hscope).1).delete n

/-- A namespaced manager is synced and then completes any calls of which no update failed, all
on resources in its scope. A new manager of its kind that syncs over the store it leaves answers
as it does, except on resources that were deleted after their last update. -/
theorem get_after_restart {x y z w : Site} {l : List Entry}
    {federatedKind federatedKind' targetKind : String} {scope : Option String}
    (hnew : x.manager = .new true federatedKind targetKind scope)
    (hfiled : x.store.Filed) (hsync : SyncRun x y) (hrun : Runs y l z)
    (hok : ∀ e ∈ l, e.Succeeded) (hscope : ∀ e ∈ l, inScope scope e.resource = true)
    (hrestart : SyncRun ⟨.new true federatedKind' targetKind scope, z.store⟩ w) {resource : Object}
    (hlast : forgotten l resource.name = false) :
    w.manager.get resource = z.manager.get resource := by
  have hempty : x.manager.records = .empty := by
    rw [hnew]
    rfl
  have hsetup : z.manager.setup = (targetKind, scope, ⟨true⟩) := by
    rw [hrun.setup, hsync.setup, hnew]
    rfl
  have hw : w.manager.setup = z.manager.setup := by
    rw [hrestart.setup, hsetup]
    rfl
  have hfz : z.store.Filed := hrun.filed (hsync.filed hfiled)
  obtain ⟨-, hys, hyt⟩ := VersionManager.setup_iff.mp (hsync.setup)
  have hkz : Kept z (forgotten l) := by
    refine kept_runs (Kept.of_sync hsync hempty hfiled) (hsync.filed hfiled) ?_ hrun hok ?_
    · rw [hyt, hnew]
      rfl
    · rw [hys, hnew]
      exact hscope
  have hkw := Kept.of_sync hrestart rfl hfz
  apply VersionManager.get_congr hw
  refine (hkw.agreed resource.name rfl).trans (Eq.trans ?_ (hkz.agreed resource.name hlast).symm)
  obtain ⟨-, hsc, -⟩ := VersionManager.setup_iff.mp hw
  rw [Site.loaded?, Site.loaded?, hsc, VersionManager.recordName_congr hw, hrestart.stored?]
  have hk : z.kind = (⟨.new true federatedKind' targetKind scope, z.store⟩ : Site).kind :=
    Site.kind_congr (hsetup.trans rfl)
  rw [Site.stored?, Site.stored?, hk]

namespace Sample

/-- A new manager, synced over what another one has left. -/
def restart (x : Site) : Site :=
  (Site.course SyncStage.step [.go 0] (⟨start.manager, x.store⟩, .listing)).1

theorem sync_restart :
    SyncRun ⟨.new true "FederatedDeployment" "Deployment" none, (update synced "1" 4).1.store⟩
      (restart (update synced "1" 4).1) :=
  ⟨[.go 0], rfl⟩

end Sample

theorem get_after_restart_sample :
    (Sample.restart (Sample.update Sample.synced "1" 4).1).manager.get Sample.resource =
      (Sample.update Sample.synced "1" 4).1.manager.get Sample.resource := by
  have hrun := Runs.start.update Sample.update_synced
  exact get_after_restart (by rfl) Sample.filed_start Sample.sync hrun (by simp [Entry.Succeeded])
    (by simp [inScope]) Sample.sync_restart (by simp [forgotten, Entry.forget])

/-- The last call about a resource. -/
def lastCall (l : List Entry) (n : Name) : Option Entry :=
  (l.filter fun e => e.resource = n).getLast?

/-- The last call about a resource does not tell whether its record was forgotten: after a delete
a get finds nothing, a new manager finds the stored record. -/
theorem get_of_deleted_after_restart : ¬ ∀ (x y z w : Site) (l : List Entry)
    (federatedKind targetKind : String) (scope : Option String) (resource : Object),
    x.manager = .new true federatedKind targetKind scope → x.store.Filed → SyncRun x y →
    Runs y l z → (∀ e ∈ l, e.Succeeded) → (∀ e ∈ l, inScope scope e.resource = true) →
    SyncRun ⟨.new true federatedKind targetKind scope, z.store⟩ w →
    (∀ d, lastCall l resource.name ≠ some (.delete d)) →
    w.manager.get resource = z.manager.get resource := by
  intro h
  have hrun := ((Runs.start.update Sample.update_synced).delete Sample.resource.name).get
    Sample.resource
  have heq := h _ _ _ _ _ _ _ none Sample.resource rfl Sample.filed_start Sample.sync hrun
    (by simp [Entry.Succeeded]) (by simp [inScope]) Sample.sync_restart
    (by simp [lastCall, Entry.resource])
  have hne :
      ((Sample.restart (Sample.update Sample.synced "1" 4).1).manager.get
        Sample.resource).toOption ≠
      (((Sample.update Sample.synced "1" 4).1.manager.delete Sample.resource.name).get
        Sample.resource).toOption := by
    decide +kernel
  exact hne (congrArg Except.toOption heq)

end FedTrack
