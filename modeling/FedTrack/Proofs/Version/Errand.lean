import FedTrack.Proofs.Version.Twin

namespace FedTrack

open MemoryStore

/-- A call to a manager that has not ended. -/
inductive Errand
  | syncing (stage : SyncStage)
  /-- A listing is answered, and its records are not loaded yet. -/
  | loading (outcome : Outcome)
  | updating (stage : UpdateStage)
  | getting (resource : Object)
  | deleting (resource : Name)

inductive Demand
  | sync
  | update (r : UpdateRequest)
  | get (resource : Object)
  | delete (resource : Name)

inductive Reply
  | synced
  | updated (result : Except VersionError Unit)
  | got (versions : Except VersionError VersionMap)
  | deleted

def Reply.succeeded : Reply → Bool
  | .updated (.error _) | .got (.error _) => false
  | _ => true

def Demand.errand : Demand → Errand
  | .sync => .syncing .listing
  | .update r => .updating (.preparing r)
  | .get resource => .getting resource
  | .delete resource => .deleting resource

namespace Errand

/-- A pause is not over before its time. -/
def ready (now : Time) : Errand → Bool
  | .syncing (.pausing wake) => wake ≤ now
  | .updating u => u.alarm?.all (· ≤ now)
  | _ => true

/-- One step of a call: a locked section, a call to the store, or the end of a pause. -/
def step (now : Time) (x : Site) : Errand → Site × (Errand ⊕ Reply)
  | .syncing .listing =>
    let (x, outcome) := x.call (SyncStage.call x.manager)
    (x, .inl (.loading outcome))
  | .syncing (.pausing _) => (x, .inl (.syncing .listing))
  | .syncing .finished => (x, .inr .synced)
  | .loading outcome =>
    match SyncStage.answer x.manager outcome now with
    | (m, .finished) => (⟨m, x.store⟩, .inr .synced)
    | (m, stage) => (⟨m, x.store⟩, .inl (.syncing stage))
  | .updating u =>
    match UpdateStage.step now x u with
    | (x, .finished result) => (x, .inr (.updated result))
    | (x, u) => (x, .inl (.updating u))
  | .getting resource => (x, .inr (.got (x.manager.get resource)))
  | .deleting resource => (⟨x.manager.delete resource, x.store⟩, .inr .deleted)

theorem step_listing (now : Time) (x : Site) : step now x (.syncing .listing) =
    ((x.call (SyncStage.call x.manager)).1,
      .inl (.loading (x.call (SyncStage.call x.manager)).2)) := rfl

/-- If nothing comes in between, a listing and the loading of its records are one step of a sync. -/
theorem step_loading (now : Time) (x : Site) :
    step now (x.call (SyncStage.call x.manager)).1
        (.loading (x.call (SyncStage.call x.manager)).2) =
      ((SyncStage.step now x .listing).1,
        match (SyncStage.step now x .listing).2 with
        | .finished => .inr .synced
        | stage => .inl (.syncing stage)) := by
  have hmanager : (x.call (SyncStage.call x.manager)).1.manager = x.manager := rfl
  simp only [step, SyncStage.step, hmanager]
  split
  · rename_i m hm
    rw [hm]
  · rename_i m stage hgoing hm
    rw [hm]
    cases stage with
    | finished => exact absurd rfl hgoing
    | listing => rfl
    | pausing wake => rfl

/-- All names that the call still uses have the property `P`. -/
def Within (P : Name → Prop) (m : VersionManager) : Errand → Prop
  | .syncing _ | .loading _ => ∀ n, m.owns n = true → P n
  | .updating u => u.Within P m
  | .getting resource => P (m.recordName resource.name)
  | .deleting resource => P (m.recordName resource)

theorem within_congr {P : Name → Prop} {m m' : VersionManager} (h : m'.setup = m.setup)
    (e : Errand) : e.Within P m' ↔ e.Within P m := by
  obtain ⟨hk, -, -⟩ := VersionManager.setup_iff.mp h
  cases e with
  | syncing stage => simp only [Within, VersionManager.owns, hk]
  | loading outcome => simp only [Within, VersionManager.owns, hk]
  | updating u =>
    cases u with
    | preparing r => exact VersionManager.places_congr h _
    | writing name w => exact Iff.rfl
    | adopting name version => exact Iff.rfl
    | finished result => exact Iff.rfl
  | getting resource => simp only [Within, VersionManager.recordName_congr h]
  | deleting resource => simp only [Within, VersionManager.recordName_congr h]

/-- A call only touches what it uses. -/
theorem confined_step (now : Time) {P : Name → Prop} {x : Site} (hs : x.store.Sound)
    (hshelved : x.manager.Shelved P) {e : Errand} (he : e.Within P x.manager) :
    Site.Confined P x (e.step now x).1 ∧
      ∀ e', (e.step now x).2 = .inl e' → e'.Within P x.manager := by
  have hrefl : Site.Confined P x x := Site.confined_refl hs hshelved
  have going {e : Errand} (he : e.Within P x.manager) :
      ∀ e', (.inl e : Errand ⊕ Reply) = .inl e' → e'.Within P x.manager := by
    intro e' h
    cases h
    exact he
  have ended (r : Reply) :
      ∀ e', (.inr r : Errand ⊕ Reply) = .inl e' → e'.Within P x.manager := by
    intro e' h
    cases h
  cases e with
  | syncing stage =>
    cases stage with
    | listing =>
      have hlist : ∀ name, (SyncStage.call x.manager).target? = some name → P name := nofun
      rw [step_listing]
      exact ⟨Site.confined_call hs hshelved hlist, going he⟩
    | pausing wake => exact ⟨hrefl, going he⟩
    | finished => exact ⟨hrefl, ended _⟩
  | loading outcome =>
    cases outcome with
    | error f => exact ⟨hrefl, going he⟩
    | ok a =>
      cases a with
      | objects listed => exact ⟨Site.confined_load hs hshelved he listed, ended _⟩
      | found object => exact ⟨hrefl, going he⟩
      | stored object => exact ⟨hrefl, going he⟩
  | updating u =>
    obtain ⟨hc, hw⟩ := Site.confined_step now hs hshelved he
    unfold step
    dsimp only
    split
    · rename_i y result hy
      rw [hy] at hc
      exact ⟨hc, ended _⟩
    · rename_i y u' _ hy
      rw [hy] at hc hw
      exact ⟨hc, going hw⟩
  | getting resource => exact ⟨hrefl, ended _⟩
  | deleting resource => exact ⟨Site.confined_delete hs hshelved he, ended _⟩

variable {N : Name → Prop} {s t : MemoryStore}

/-- Two calls that stand at the same point. -/
inductive Twin (N : Name → Prop) (s t : MemoryStore) : Errand → Errand → Prop
  | syncing (stage : SyncStage) : Twin N s t (.syncing stage) (.syncing stage)
  | loading {o p : Outcome} (h : Answering N s t o p) : Twin N s t (.loading o) (.loading p)
  | updating {u v : UpdateStage} (h : u.Twin N s t v) : Twin N s t (.updating u) (.updating v)
  | getting (resource : Object) : Twin N s t (.getting resource) (.getting resource)
  | deleting (resource : Name) : Twin N s t (.deleting resource) (.deleting resource)

/-- Two calls go on together, or end together with the same reply. -/
inductive Together (N : Name → Prop) (s t : MemoryStore) : Errand ⊕ Reply → Errand ⊕ Reply → Prop
  | going {e f : Errand} (h : e.Twin N s t f) : Together N s t (.inl e) (.inl f)
  | ended (r : Reply) : Together N s t (.inr r) (.inr r)

theorem Twin.onward {s' t' : MemoryStore} {e f : Errand} (h : e.Twin N s t f)
    (ha : MemoryStore.Abreast N s t s' t') : e.Twin N s' t' f := by
  cases h with
  | syncing stage => exact .syncing stage
  | loading ho => exact .loading (ho.onward ha)
  | updating hu => exact .updating (hu.onward ha)
  | getting resource => exact .getting resource
  | deleting resource => exact .deleting resource

theorem Twin.ready {e f : Errand} (h : e.Twin N s t f) (now : Time) :
    f.ready now = e.ready now := by
  cases h with
  | syncing stage => rfl
  | loading ho => rfl
  | updating hu =>
    cases hu with
    | preparing r => rfl
    | @writing name w w' hw =>
      have hstage := hw.stage
      unfold Errand.ready UpdateStage.alarm?
      dsimp only
      generalize w.stage = a at hstage
      generalize w'.stage = b at hstage
      cases hstage with
      | done hv => rfl
      | same a ha => rfl
    | adopting name hv => rfl
    | finished result => rfl
  | getting resource => rfl
  | deleting resource => rfl

/-- Two calls that stand at the same point take the same step. -/
theorem step_abreast (now : Time) {x y : Site} (h : Site.Twin N x y) {e f : Errand}
    (he : e.Twin N x.store y.store f) (hin : e.Within N x.manager) :
    Site.Abreast N x y (e.step now x).1 (f.step now y).1 ∧
      Together N (e.step now x).1.store (f.step now y).1.store
        (e.step now x).2 (f.step now y).2 := by
  have hrefl := Site.abreast_refl h
  cases he with
  | syncing stage =>
    cases stage with
    | listing =>
      obtain ⟨-, hscope, -⟩ := VersionManager.setup_iff.mp h.manager.setup
      obtain ⟨ha, hanswer⟩ := Site.abreast_call h (.list x.manager.scope)
      rw [step_listing, step_listing, SyncStage.call, SyncStage.call, hscope]
      exact ⟨ha, .going (.loading hanswer)⟩
    | pausing wake => exact ⟨hrefl, .going (.syncing _)⟩
    | finished => exact ⟨hrefl, .ended _⟩
  | loading ho =>
    cases ho with
    | listed hl => exact ⟨Site.abreast_managers h (h.manager.load (.listed hl)), .ended _⟩
    | found _ => exact ⟨hrefl, .going (.syncing _)⟩
    | stored _ => exact ⟨hrefl, .going (.syncing _)⟩
    | failed e => exact ⟨hrefl, .going (.syncing _)⟩
    | conflict m m' => exact ⟨hrefl, .going (.syncing _)⟩
  | @updating u v hu =>
    obtain ⟨ha, hstage⟩ := UpdateStage.step_abreast now h hu hin
    unfold step
    dsimp only
    generalize UpdateStage.step now x u = z at ha hstage
    generalize UpdateStage.step now y v = z' at ha hstage
    obtain ⟨x', u'⟩ := z
    obtain ⟨y', v'⟩ := z'
    dsimp only at ha hstage
    cases hstage with
    | preparing r => exact ⟨ha, .going (.updating (.preparing r))⟩
    | writing name hw => exact ⟨ha, .going (.updating (.writing name hw))⟩
    | adopting name hv => exact ⟨ha, .going (.updating (.adopting name hv))⟩
    | finished result => exact ⟨ha, .ended _⟩
  | getting resource =>
    refine ⟨hrefl, ?_⟩
    simp only [step, h.manager.get hin]
    exact .ended _
  | deleting resource => exact ⟨Site.abreast_managers h (h.manager.delete resource), .ended _⟩

end Errand

end FedTrack
