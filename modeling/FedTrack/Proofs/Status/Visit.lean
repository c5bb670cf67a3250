import FedTrack.Proofs.Status.Rollup
import FedTrack.Proofs.Version.Journey

namespace FedTrack

open MemoryStore

/-- A reconcile of a key on its way, in sources and a store that others change. -/
structure Visit (resource : Resource) (key : Name) where
  now : Time
  sources : StatusSources
  store : MemoryStore
  stage : StatusStage
  /-- The sources as they were when it decided what to do. -/
  seen : Option StatusSources
  sent : Option (Exchange resource.toKind)

inductive VisitEvent
  | observe (s : StatusSources)
  | meddle (m : Meddling)
  /-- The reconcile looks at the sources if it is time to, or it makes its call and waits this long
  for the answer. -/
  | go (takes : Span)
  | pass (span : Span)

namespace Visit

variable {resource : Resource} {key : Name}

def start (s : StatusSources) (store : MemoryStore) (syncTimeout : Span) (now : Time) :
    Visit resource key := ⟨now, s, store, .start syncTimeout now, none, none⟩

def look (v : Visit resource key) : Visit resource key :=
  { v with
    stage := v.stage.look v.sources resource key v.now
    seen := if v.sources.areSynced then some v.sources else none }

/-- The call is made, and its answer ends the reconcile. -/
def take (v : Visit resource key) (x : Exchange resource.toKind) : Visit resource key :=
  { v with now := x.time, store := x.after, stage := v.stage.answer x.outcome, sent := some x }

def step (v : Visit resource key) : VisitEvent → Visit resource key
  | .observe s => { v with sources := s }
  | .meddle m => { v with store := v.store.meddle m }
  | .pass span => { v with now := v.now + span }
  | .go takes =>
    match v.stage with
    | .polling _ wake => if wake ≤ v.now then v.look else v
    | .writing call => v.take ⟨v.store, call, v.now + takes⟩
    | .finished _ => v

def run (v : Visit resource key) (events : List VisitEvent) : Visit resource key :=
  events.foldl step v

/-- How a reconcile that decided on `s` can end. -/
inductive Ended (resource : Resource) (key : Name) (s : StatusSources) :
    Option (Exchange resource.toKind) → ReconcileOutcome → Prop
  | decided {outcome : ReconcileOutcome} (hd : s.decide resource key = .finish outcome) :
      Ended resource key s none outcome
  | accepted {x : Exchange resource.toKind} {a : Answer}
      (hd : s.decide resource key = .write x.call) (ha : x.outcome = .ok a) :
      Ended resource key s (some x) .allOk
  | rejected {x : Exchange resource.toKind} {e : StoreError}
      (hd : s.decide resource key = .write x.call) (ha : x.outcome = .error e) :
      Ended resource key s (some x) .needsRecheck

/-- What a reconcile has done, told by its stage. -/
def Stands (v : Visit resource key) : Prop :=
  match v.stage with
  | .polling _ _ => v.seen = none ∧ v.sent = none
  | .writing call => v.sent = none ∧
      ∃ s, v.seen = some s ∧ s.areSynced = true ∧ s.decide resource key = .write call
  | .finished outcome => outcome ≠ .allOk ∧ v.seen = none ∨
      ∃ s, v.seen = some s ∧ s.areSynced = true ∧ Ended resource key s v.sent outcome

namespace Stands

variable {v : Visit resource key}

theorem look {poll : Poll} {wake : Time} (hv : v.stage = .polling poll wake)
    (hsent : v.sent = none) : Stands v.look := by
  unfold Stands Visit.look
  simp only [hv, hsent, StatusStage.look]
  cases hs : v.sources.areSynced with
  | true =>
    simp only [if_true]
    cases hd : v.sources.decide resource key with
    | finish outcome => exact Or.inr ⟨v.sources, rfl, hs, .decided hd⟩
    | write call => exact ⟨trivial, v.sources, rfl, hs, hd⟩
  | false =>
    simp only [Bool.false_eq_true, if_false]
    cases poll.retry v.now with
    | none => exact Or.inl ⟨nofun, trivial⟩
    | some p => exact ⟨trivial, trivial⟩

theorem take (h : Stands v) {x : Exchange resource.toKind} (hv : v.stage = .writing x.call) :
    Stands (v.take x) := by
  unfold Stands at h ⊢
  simp only [hv] at h
  obtain ⟨-, s, hseen, hs, hd⟩ := h
  simp only [Visit.take, hv, StatusStage.answer]
  cases ha : x.outcome with
  | ok a => exact Or.inr ⟨s, hseen, hs, .accepted hd ha⟩
  | error e => exact Or.inr ⟨s, hseen, hs, .rejected hd ha⟩

theorem step (h : Stands v) (e : VisitEvent) : Stands (v.step e) := by
  cases e with
  | observe s => exact h
  | meddle m => exact h
  | pass span => exact h
  | go takes =>
    unfold Visit.step
    dsimp only
    split
    · rename_i poll wake hv
      split
      · unfold Stands at h
        simp only [hv] at h
        exact look hv h.2
      · exact h
    · rename_i call hv
      exact h.take hv
    · exact h

theorem run (h : Stands v) (events : List VisitEvent) : Stands (v.run events) := by
  induction events generalizing v with
  | nil => exact h
  | cons e rest ih => exact ih (h.step e)

theorem start (s : StatusSources) (store : MemoryStore) (syncTimeout : Span) (now : Time) :
    Stands (.start s store syncTimeout now : Visit resource key) := ⟨rfl, rfl⟩

end Stands

/-- What a write of a status object that is accepted leaves in the store. -/
theorem stored_of_accepted {kind : Kind} {x : Exchange kind} {o : Object} {a : Answer}
    (hx : x.call = .create o ∨ x.call = .update o) (ha : x.outcome = .ok a) :
    ∃ p, x.after.find? kind o.name = some p ∧
      p.data.member? "clusters" = o.data.member? "clusters" := by
  have hput {t u : MemoryStore} {p : Object}
      (hu : u.objects = t.objects.insert (kind, o.name) p) : u.find? kind o.name = some p := by
    rw [find?_of_insert hu, if_pos ⟨rfl, rfl⟩]
  unfold Exchange.outcome at ha
  unfold Exchange.after
  rcases x.store.perform_cases kind x.call with ⟨⟨e, he⟩, -⟩ | ⟨t, -, ht⟩
  · cases he.symm.trans ha
  · rw [ht] at ha ⊢
    rcases hx with hx | hx
    · rw [hx] at ha ⊢
      rcases t.commit_create kind o with ⟨⟨e, he⟩, -⟩ | ⟨-, p, -, -, hd, ho⟩
      · cases he.symm.trans ha
      · exact ⟨p, hput ho, by simp [hd]⟩
    · rw [hx] at ha ⊢
      rcases t.commit_update kind o with ⟨⟨e, he⟩, -⟩ | ⟨p, -, -, hd, ho⟩
      · cases he.symm.trans ha
      · exact ⟨p, hput ho, by rw [hd]⟩

/-! The order in which the ready clusters are named does not matter to a reconcile. -/

def reorder (π : List String → List String) (v : Visit resource key) : Visit resource key :=
  { v with sources := v.sources.reorder π, seen := v.seen.map (·.reorder π) }

end Visit

def VisitEvent.reorder (π : List String → List String) : VisitEvent → VisitEvent
  | .observe s => .observe (s.reorder π)
  | e => e

namespace Visit

variable {resource : Resource} {key : Name}

section
variable {π : List String → List String}

theorem look_reorder (hπ : ∀ l, (π l).Perm l) (v : Visit resource key) :
    (v.reorder π).look = v.look.reorder π := by
  have hstage : v.stage.look (v.sources.reorder π) resource key v.now =
      v.stage.look v.sources resource key v.now := by
    unfold StatusStage.look
    rw [StatusSources.areSynced_reorder hπ, StatusSources.decide_reorder hπ]
  unfold look reorder
  dsimp only
  rw [hstage, StatusSources.areSynced_reorder hπ]
  split <;> rfl

theorem step_reorder (hπ : ∀ l, (π l).Perm l) (v : Visit resource key) (e : VisitEvent) :
    (v.reorder π).step (e.reorder π) = (v.step e).reorder π := by
  cases e with
  | observe s => rfl
  | meddle m => rfl
  | pass span => rfl
  | go takes =>
    have hstage : (v.reorder π).stage = v.stage := rfl
    cases hv : v.stage with
    | polling poll wake =>
      simp only [VisitEvent.reorder, step, hstage, hv]
      by_cases hw : wake ≤ v.now
      · have hw' : wake ≤ (v.reorder π).now := hw
        rw [if_pos hw, if_pos hw', look_reorder hπ]
      · have hw' : ¬ wake ≤ (v.reorder π).now := hw
        rw [if_neg hw, if_neg hw']
    | writing call =>
      simp only [VisitEvent.reorder, step, hstage, hv]
      rfl
    | finished outcome => simp only [VisitEvent.reorder, step, hstage, hv]

theorem run_reorder (hπ : ∀ l, (π l).Perm l) (v : Visit resource key)
    (events : List VisitEvent) :
    (v.reorder π).run (events.map (·.reorder π)) = (v.run events).reorder π := by
  induction events generalizing v with
  | nil => rfl
  | cons e rest ih =>
    have hstep := ih (v.step e)
    rw [← step_reorder hπ] at hstep
    exact hstep

end

/-- When a reconcile ends well whose federated resource was there, not being deleted, and whose
ready clusters were distinct when it decided, the status object that it has written, and that is
stored then, rolls the target objects up, or, if it has written nothing, the cached one does. The
order in which the ready clusters are named changes nothing. -/
theorem rolls_up_targets (sources : StatusSources) (store : MemoryStore) (syncTimeout : Span)
    (began : Time) (events : List VisitEvent) {v : Visit resource key}
    (hv : (start sources store syncTimeout began).run events = v) :
    (v.stage = .finished .allOk → ∃ s, v.seen = some s ∧ s.areSynced = true ∧
      ∀ federated, s.federated.find? key = some federated → federated.isBeingDeleted = false →
        s.clusters.names.Nodup →
        (v.sent = none ∧ ∃ existing shown, s.status.find? key = some existing ∧
          existing.data.member? "clusters" = some shown ∧
          RollsUp (fun a b => a.agrees b = true) s key shown) ∨
        ∃ x o p written, v.sent = some x ∧ (x.call = .create o ∨ x.call = .update o) ∧
          o.data.member? "clusters" = some written ∧ RollsUp (· = ·) s key written ∧
          x.after.find? resource.toKind o.name = some p ∧
          p.data.member? "clusters" = some written) ∧
    ∀ π : List String → List String, (∀ l, (π l).Perm l) →
      (start (sources.reorder π) store syncTimeout began).run (events.map (·.reorder π)) =
        v.reorder π := by
  have hstands : Stands v := hv ▸ (Stands.start sources store syncTimeout began).run events
  refine ⟨?_, fun π hπ => hv ▸ run_reorder hπ (start sources store syncTimeout began) events⟩
  intro hok
  unfold Stands at hstands
  simp only [hok] at hstands
  rcases hstands with ⟨hne, -⟩ | ⟨s, hseen, hs, hended⟩
  · exact absurd rfl hne
  · refine ⟨s, hseen, hs, ?_⟩
    intro federated hf hp hd
    have hrolled := StatusSources.rolled_decide hf hp hd resource
    generalize v.sent = sent at hended ⊢
    cases hended with
    | decided hdecided =>
      rw [hdecided] at hrolled
      cases hrolled with
      | failed hne => exact absurd rfl hne
      | shown he hs hr => exact Or.inl ⟨rfl, _, _, he, hs, hr⟩
    | @accepted x a hdecided ha =>
      rw [hdecided] at hrolled
      cases hrolled with
      | writes hcall hw hr =>
        obtain ⟨p, hstored, hsame⟩ := stored_of_accepted hcall ha
        exact Or.inr ⟨x, _, p, _, rfl, hcall, hw, hr, hstored, hsame.trans hw⟩

end Visit

def StatusStage.succeeded : StatusStage → Bool
  | .finished .allOk => true
  | _ => false

theorem StatusStage.eq_of_succeeded {stage : StatusStage} (h : stage.succeeded = true) :
    stage = .finished .allOk := by
  unfold succeeded at h
  split at h
  · rfl
  · cases h

namespace Visit.Sample

def resource : Resource :=
  { group := "types.kubefed.io"
    version := "v1beta1"
    apiVersion := "types.kubefed.io/v1beta1"
    kind := "FederatedDeploymentStatus"
    plural := "federateddeploymentstatuses" }

def key : Name := ⟨"apps", "web"⟩

def object (kind : String) (data : Json.Members) : Object :=
  { types := some ⟨"types.kubefed.io/v1beta1", kind⟩
    metadata := { Metadata.empty with name := some "web", scope := some "apps", uid := some "u" }
    data := .object data }

/-- One of two targets has a status that is a map. -/
def targets : TargetObjects :=
  ((TargetObjects.empty.put "west"
    (object "Deployment" [("status", .object [("ready", .bool true)])])).put "east"
    (object "Deployment" [("status", .string "unknown")]))

def sources : StatusSources where
  clusters := ⟨["west", "north", "east"], true, false⟩
  federated := (ObjectCache.empty.setSynced true).put (object "FederatedDeployment" [])
  status := ObjectCache.empty.setSynced true
  targets := targets

/-- A target cache becomes complete while the reconcile waits for it. -/
def visit : Visit resource key :=
  (start (sources.onTargets (·.setUnsynced "west" true)) .empty 30000 0).run
    [.go 0, .observe sources, .pass 10000, .go 0, .go 0]

end Visit.Sample

/-- A status object with three entries is created. -/
theorem Visit.rolls_up_targets_sample : Sample.visit.stage = .finished .allOk ∧
    ∃ s x, ∃ o p : Object, ∃ written, Sample.visit.seen = some s ∧ Sample.visit.sent = some x ∧
      s.clusters.names = ["west", "north", "east"] ∧ RollsUp (· = ·) s Sample.key written ∧
      x.after.find? Sample.resource.toKind o.name = some p ∧
      p.data.member? "clusters" = some written := by
  have hok : Sample.visit.stage = .finished .allOk :=
    StatusStage.eq_of_succeeded (by decide +kernel)
  have hsources : (Sample.visit.seen.map fun s => (s.clusters.names, s.federated.find? Sample.key))
      = some (["west", "north", "east"], some (Sample.object "FederatedDeployment" [])) := by
    decide +kernel
  have hsent : Sample.visit.sent.isSome = true := by decide +kernel
  obtain ⟨hrolls, -⟩ := rolls_up_targets _ _ _ _ _ (v := Sample.visit) rfl
  obtain ⟨s, hseen, -, hs⟩ := hrolls hok
  rw [hseen, Option.map_some, Option.some.injEq, Prod.mk.injEq] at hsources
  obtain ⟨hnames, hfederated⟩ := hsources
  refine ⟨hok, ?_⟩
  rcases hs _ hfederated rfl (by rw [hnames]; decide) with ⟨hnone, -⟩ | hwritten
  · rw [hnone] at hsent
    cases hsent
  · obtain ⟨x, o, p, written, hx, -, -, hr, hstored, hp⟩ := hwritten
    exact ⟨s, x, o, p, written, hseen, hx, hnames, hr, hstored, hp⟩

end FedTrack
