import FedTrack.Proofs.Version.Runs
import FedTrack.Proofs.Version.Turns

namespace FedTrack

open MemoryStore

/-- The resource that a call is about; a sync is about all. -/
def Demand.resource? : Demand → Option Name
  | .sync => none
  | .update r => some r.resource.name
  | .get resource => some resource.name
  | .delete resource => some resource

theorem SyncRun.reached {x y : Site} (h : SyncRun x y) (hx : x.store.Reached) :
    y.store.Reached := by
  obtain ⟨turns, ht⟩ := h
  have hr : (Site.course SyncStage.step turns (x, .listing)).1.store.Reached := by
    refine Site.course_induction (P := fun z => z.1.store.Reached)
      (fun op f z hz => hz.failNext op f) ?_ turns hx
    rintro now ⟨z, stage⟩ hz
    cases stage with
    | listing => exact hz.perform z.kind (SyncStage.call z.manager)
    | pausing wake => exact hz
    | finished => exact hz
  rw [ht] at hr
  exact hr

/-- Whatever a manager caches in a sync is stored, under the name that it is cached under. -/
theorem SyncRun.cached {x y : Site} (h : SyncRun x y) (hf : x.store.Filed)
    (hnew : x.manager.records = .empty) {key : Name} {o : Object}
    (ho : y.manager.records.find? key = some o) :
    o.name = key ∧ y.store.find? y.kind key = some o := by
  obtain ⟨hs, -, -⟩ := (h.cached?_iff hf hnew).mp ho
  exact ⟨h.filed hf y.kind key o hs, hs⟩

/-- The record of every resource is stored under the name that it is cached under: records of the
whole cluster have no namespace, and neither have their resources. -/
def VersionManager.Suits (m : VersionManager) (n : Name) : Prop :=
  m.recordType.namespaced = true ∨ n.scope = ""

namespace VersionManager

theorem ownName_recordName {m : VersionManager} {n : Name} (h : m.Suits n) :
    m.recordType.ownName (m.recordName n) = m.recordName n := by
  rcases h with h | h
  · exact RecordType.ownName_of_namespaced h _
  · have hscope : (m.recordName n).scope = "" := h
    unfold RecordType.ownName
    rw [hscope]
    split <;> rw [← hscope]

/-- A call about one resource uses the name of its record, and a call about another one does not. -/
theorem within_resource {m : VersionManager} {d : Demand} {n : Name} (hd : d.resource? = some n)
    (hn : m.Suits n) (n' : Name) :
    d.errand.Within (Bureau.side (· = m.recordName n') (n = n')) m := by
  have hside : Bureau.side (· = m.recordName n') (n = n') (m.recordName n) := by
    rw [Bureau.side, decide_eq_true_eq]
    exact ⟨fun h => m.recordName_injective h, fun h => h ▸ rfl⟩
  cases d with
  | sync => cases hd
  | update r =>
    cases hd
    refine ⟨hside, ?_⟩
    rw [ownName_recordName hn]
    exact hside
  | get resource =>
    cases hd
    exact hside
  | delete resource =>
    cases hd
    exact hside

end VersionManager

namespace Bureau

/-- One manager. Each client is a resource, so that its calls do not overlap. -/
def desk : Name → Unit := fun _ => ()

def ofSite (now : Time) (x : Site) : Bureau Name Unit := new now x.store fun _ => x.manager

/-- What happens without the other resources: time passes, and the resource's own calls. -/
def alone (n : Name) (events : List (Event Name)) : List (Event Name) :=
  events.filter (·.concerns (· = n))

def cachedStatus (b : Bureau Name Unit) (n : Name) : Option (Option VersionStatus) :=
  ((b.managers ()).records.find? ((b.managers ()).recordName n)).map RecordType.status?

def storedStatus (b : Bureau Name Unit) (n : Name) : Option (Option VersionStatus) :=
  ((b.site ()).stored? ((b.managers ()).recordName n)).map RecordType.status?

section
variable {x y : Site} {namespaced : Bool} {federatedKind targetKind : String}
  {scope : Option String} {events : List (Event Name)}

theorem twin_ofSite (hnew : x.manager = .new namespaced federatedKind targetKind scope)
    (hreached : x.store.Reached) (hsync : SyncRun x y) (hfaultless : y.store.faults = [])
    (now : Time) (n : Name) :
    Twin desk (· = y.manager.recordName n) (· = n) (ofSite now y) (ofSite now y) := by
  have hempty : x.manager.records = .empty := by
    rw [hnew]
    rfl
  have hs := (hsync.reached hreached).sound
  refine .new now hs hfaultless ?_ ?_
  · intro _ own key o ho hkey
    rw [(hsync.cached hreached.filed hempty ho).1]
    exact hkey
  · intro _ key o ho v hv
    obtain ⟨w, hw, hi⟩ := hs.issued y.kind key o (hsync.cached hreached.filed hempty ho).2
    cases hw.symm.trans hv
    exact hi

theorem fair_ofSite (hown : ∀ n d, .ask n d ∈ events → d.resource? = some n)
    (hsuits : ∀ n d, .ask n d ∈ events → y.manager.Suits n) (now : Time) (n : Name) :
    ∀ e ∈ events, e.Fair desk (· = y.manager.recordName n) (· = n) (ofSite now y).managers := by
  intro e he
  cases e with
  | ask i d => exact VersionManager.within_resource (hown i d he) (hsuits i d he) n
  | pass span => trivial
  | go i => trivial

/-- The calls about one resource come to the same, and leave the same status behind, as if nobody
called about another one, and none of them waits for a call about another one. -/
theorem resources_apart (hnew : x.manager = .new namespaced federatedKind targetKind scope)
    (hreached : x.store.Reached) (hsync : SyncRun x y) (hfaultless : y.store.faults = [])
    (hown : ∀ n d, .ask n d ∈ events → d.resource? = some n)
    (hsuits : ∀ n d, .ask n d ∈ events → y.manager.Suits n) (now : Time) (n : Name) :
    let b := (ofSite now y).run desk events
    let c := (ofSite now y).run desk (alone n events)
    b.replies n = c.replies n ∧ ((b.errands n).isSome = (c.errands n).isSome) ∧
      b.cachedStatus n = c.cachedStatus n ∧ b.storedStatus n = c.storedStatus n ∧
      ∀ later, (∀ n d, .ask n d ∈ later → d.resource? = some n) →
        Errand.patience < turns desk n b later →
        (b.replies n).length < ((b.run desk later).replies n).length := by
  intro b c
  have hstart := twin_ofSite hnew hreached hsync hfaultless now n
  have hfair := fair_ofSite hown hsuits now n
  have h : Twin desk (· = y.manager.recordName n) (· = n) b c := hstart.run hfair
  have hb : (b.managers ()).setup = y.manager.setup := (hstart.tidy.run hfair).2 ()
  have hc : (c.managers ()).setup = y.manager.setup := (h.managers ()).setup.trans hb
  have hnosync {events : List (Event Name)}
      (hown : ∀ n d, .ask n d ∈ events → d.resource? = some n) :
      ∀ d, .ask n d ∈ events → d ≠ .sync := by
    rintro d hd rfl
    cases hown n _ hd
  refine ⟨(h.replies n (by simp)).symm, ?_, ?_, ?_, ?_⟩
  · rcases rel_cases (h.errands n (by simp)) with ⟨he, hf⟩ | ⟨e, f, he, hf, -⟩
    · rw [he, hf]
    · rw [he, hf]
      rfl
  · rw [cachedStatus, cachedStatus, VersionManager.recordName_congr hb,
      VersionManager.recordName_congr hc]
    rcases rel_cases ((h.managers ()).alike _ rfl) with ⟨ho, hp⟩ | ⟨o, p, ho, hp, ha⟩
    · rw [ho, hp]
    · rw [ho, hp, Option.map_some, Option.map_some, RecordType.status?_of_core ha.core]
  · rw [storedStatus, storedStatus, VersionManager.recordName_congr hb,
      VersionManager.recordName_congr hc, Site.stored?, Site.stored?,
      Site.kind_congr (x := b.site ()) (y := c.site ()) (h.managers ()).setup]
    change (b.store.find? (b.site ()).kind _).map _ = (c.store.find? (b.site ()).kind _).map _
    rcases rel_cases (h.store.alike (b.site ()).kind _ rfl) with ⟨ho, hp⟩ | ⟨o, p, ho, hp, ha⟩
    · rw [ho, hp]
    · rw [ho, hp, Option.map_some, Option.map_some, RecordType.status?_of_core ha.core]
  · intro later hlater hturns
    exact replied_of_turns ((brisk_new now _ _ n).run (hnosync hown)) (hnosync hlater) hturns

end

end Bureau

namespace Sample

def resourceIn (scope name : String) : Object :=
  { resource with metadata := { resource.metadata with name := some name, scope := some scope } }

def requestIn (scope name : String) : UpdateRequest :=
  ⟨resourceIn scope name, ["c1"], Table.ofList [("c1", "1")]⟩

/-- While the record of one resource is created, another one is updated. -/
def heldCreation : List (Bureau.Event Name) :=
  [.ask ⟨"apps", "web"⟩ (.update (requestIn "apps" "web")), .go ⟨"apps", "web"⟩,
    .ask ⟨"apps", "db"⟩ (.update (requestIn "apps" "db")), .go ⟨"apps", "db"⟩,
    .go ⟨"apps", "db"⟩, .pass 100, .go ⟨"apps", "db"⟩]

theorem ask_heldCreation {n : Name} {d : Demand} (h : .ask n d ∈ heldCreation) :
    d.resource? = some n := by
  simp only [heldCreation, List.mem_cons, Bureau.Event.ask.injEq, reduceCtorEq, List.not_mem_nil,
    or_false, false_or] at h
  rcases h with ⟨rfl, rfl⟩ | ⟨rfl, rfl⟩ <;> rfl

end Sample

theorem Bureau.resources_apart_sample :
    let b := (ofSite 0 Sample.synced).run desk Sample.heldCreation
    b.replies ⟨"apps", "db"⟩ = ((ofSite 0 Sample.synced).run desk
        (alone ⟨"apps", "db"⟩ Sample.heldCreation)).replies ⟨"apps", "db"⟩ ∧
      (b.replies ⟨"apps", "db"⟩).map Reply.succeeded = [true] ∧
      (b.errands ⟨"apps", "web"⟩).isSome = true := by
  have hreached : Sample.start.store.Reached :=
    .insert (RecordType.resource ⟨true⟩).toKind Sample.record .empty
  obtain ⟨h, -⟩ := resources_apart (by rfl) hreached Sample.sync (by decide +kernel)
    (fun n d => Sample.ask_heldCreation) (fun n d _ => Or.inl (by decide +kernel)) 0
    ⟨"apps", "db"⟩
  exact ⟨h, by decide +kernel, by decide +kernel⟩

namespace Sample

def clusterStart : Site := ⟨.new false "FederatedDeployment" "Deployment" none, .empty⟩

def clusterSynced : Site := (Site.course SyncStage.step [.go 0] (clusterStart, .listing)).1

/-- Two resources of one name in two namespaces are updated one after the other. -/
def namesakes : List (Bureau.Event Name) :=
  [.ask ⟨"apps", "web"⟩ (.update (requestIn "apps" "web")), .go ⟨"apps", "web"⟩,
    .go ⟨"apps", "web"⟩, .go ⟨"apps", "web"⟩, .go ⟨"apps", "web"⟩,
    .ask ⟨"prod", "web"⟩ (.update (requestIn "prod" "web")), .go ⟨"prod", "web"⟩,
    .go ⟨"prod", "web"⟩, .pass 30000, .go ⟨"prod", "web"⟩, .go ⟨"prod", "web"⟩,
    .go ⟨"prod", "web"⟩]

theorem ask_namesakes {n : Name} {d : Demand} (h : .ask n d ∈ namesakes) :
    d.resource? = some n := by
  simp only [namesakes, List.mem_cons, Bureau.Event.ask.injEq, reduceCtorEq, List.not_mem_nil,
    or_false, false_or] at h
  rcases h with ⟨rfl, rfl⟩ | ⟨rfl, rfl⟩ <;> rfl

end Sample

/-- Records of the whole cluster leave the namespace of the resource out: the second of two
resources of one name cannot be recorded, which it could be without the first one. -/
theorem Bureau.namesakes_collide : ¬ ∀ (x y : Site) (namespaced : Bool)
    (federatedKind targetKind : String) (scope : Option String) (events : List (Event Name))
    (now : Time) (n : Name), x.manager = .new namespaced federatedKind targetKind scope →
    x.store.Reached → SyncRun x y → y.store.faults = [] →
    (∀ n d, .ask n d ∈ events → d.resource? = some n) →
    ((ofSite now y).run desk events).replies n =
      ((ofSite now y).run desk (alone n events)).replies n := by
  intro h
  have heq := h Sample.clusterStart Sample.clusterSynced false "FederatedDeployment" "Deployment"
    none Sample.namesakes 0 ⟨"prod", "web"⟩ rfl .empty ⟨[.go 0], rfl⟩ (by decide +kernel)
    fun n d => Sample.ask_namesakes
  have hne : (((ofSite 0 Sample.clusterSynced).run desk Sample.namesakes).replies
        ⟨"prod", "web"⟩).map Reply.succeeded ≠
      (((ofSite 0 Sample.clusterSynced).run desk (alone ⟨"prod", "web"⟩
        Sample.namesakes)).replies ⟨"prod", "web"⟩).map Reply.succeeded := by
    decide +kernel
  exact hne (congrArg (List.map Reply.succeeded) heq)

end FedTrack
