import FedTrack.Proofs.Status.Settled

namespace FedTrack

/-- What happens around a reconcile, and what it does itself between two waits. -/
inductive VisitTurn
  | observe (s : StatusSources)
  | meddle (m : Meddling)
  | pass (span : Span)
  /-- The reconcile looks if it is time to. Where there is something to write it makes its call at
  once; others change the store while the call is on its way, and the answer takes this long. -/
  | go (transit : List Meddling) (takes : Span)

namespace Visit

open StatusSources

variable {resource : Resource} {key : Name}

def steps (v : Visit resource key) : VisitTurn → List VisitEvent
  | .observe s => [.observe s]
  | .meddle m => [.meddle m]
  | .pass span => [.pass span]
  | .go transit takes =>
    match (v.step (.go takes)).stage with
    | .writing _ => .go takes :: (transit.map .meddle ++ [.go takes])
    | _ => [.go takes]

def turn (v : Visit resource key) (t : VisitTurn) : Visit resource key := v.run (v.steps t)

def course (v : Visit resource key) (turns : List VisitTurn) : Visit resource key :=
  turns.foldl turn v

/-- The call that is made in a turn. -/
def call? (v : Visit resource key) : VisitTurn → Option (Exchange resource.toKind)
  | .go transit takes =>
    match (v.step (.go takes)).stage with
    | .writing call => some ⟨transit.foldl MemoryStore.meddle v.store, call, v.now + takes⟩
    | _ => none
  | _ => none

/-- All calls that are made in a course. -/
def calls (v : Visit resource key) : List VisitTurn → List (Exchange resource.toKind)
  | [] => []
  | t :: rest => (v.call? t).toList ++ calls (v.turn t) rest

/-- No call is under way. So it is between any two turns. -/
def Resting (v : Visit resource key) : Prop := ∀ call, v.stage ≠ .writing call

variable {v : Visit resource key} {t : VisitTurn} {x : Exchange resource.toKind}

@[simp] theorem course_cons (v : Visit resource key) (t : VisitTurn) (turns : List VisitTurn) :
    v.course (t :: turns) = (v.turn t).course turns := rfl

theorem course_append (v : Visit resource key) (before after : List VisitTurn) :
    v.course (before ++ after) = (v.course before).course after := List.foldl_append

theorem run_meddle (v : Visit resource key) (l : List Meddling) :
    v.run (l.map .meddle) = { v with store := l.foldl MemoryStore.meddle v.store } := by
  induction l generalizing v with
  | nil => rfl
  | cons m rest ih => exact ih (v.step (.meddle m))

/-- In a course nothing happens that does not happen step by step. -/
theorem course_eq_run (v : Visit resource key) (turns : List VisitTurn) :
    ∃ events, v.course turns = v.run events := by
  induction turns generalizing v with
  | nil => exact ⟨[], rfl⟩
  | cons t rest ih =>
    obtain ⟨events, hrest⟩ := ih (v.turn t)
    refine ⟨v.steps t ++ events, ?_⟩
    rw [course_cons, hrest, turn, run, run, run, List.foldl_append]

theorem Stands.course (h : Stands v) (turns : List VisitTurn) : Stands (v.course turns) := by
  obtain ⟨events, hrun⟩ := v.course_eq_run turns
  rw [hrun]
  exact h.run events

theorem turn_go_resting (transit : List Meddling) {takes : Span}
    (h : Resting (v.step (.go takes))) :
    v.call? (.go transit takes) = none ∧ v.turn (.go transit takes) = v.step (.go takes) := by
  simp only [call?, turn, steps]
  cases hw : (v.step (.go takes)).stage with
  | polling poll wake => exact ⟨rfl, rfl⟩
  | writing call => exact absurd hw (h call)
  | finished outcome => exact ⟨rfl, rfl⟩

theorem turn_go_writing (transit : List Meddling) {takes : Span} {call : Call}
    (hlooks : v.step (.go takes) = v.look) (hw : v.look.stage = .writing call) :
    ∃ x, v.call? (.go transit takes) = some x ∧ x.call = call ∧
      v.turn (.go transit takes) = v.look.take x := by
  refine ⟨⟨transit.foldl MemoryStore.meddle v.store, call, v.now + takes⟩, ?_, rfl, ?_⟩
  · simp only [call?, hlooks, hw]
  · have hsteps : v.steps (.go transit takes) =
        .go takes :: (transit.map .meddle ++ [.go takes]) := by
      simp only [steps, hlooks, hw]
    have hrun : v.run (.go takes :: (transit.map .meddle ++ [.go takes])) =
        (v.look.run (transit.map .meddle)).step (.go takes) := by
      simp only [run, List.foldl_cons, List.foldl_append, List.foldl_nil, hlooks]
    rw [turn, hsteps, hrun, run_meddle]
    simp only [step, take, hw]
    rfl

/-- A reconcile at rest looks or does nothing. -/
theorem Resting.go (h : Resting v) (takes : Span) : v.step (.go takes) = v ∨
    (∃ poll wake, v.stage = .polling poll wake) ∧ v.step (.go takes) = v.look := by
  cases hv : v.stage with
  | polling poll wake =>
    by_cases hw : wake ≤ v.now
    · exact Or.inr ⟨⟨poll, wake, rfl⟩, by simp only [step, hv, if_pos hw]⟩
    · exact Or.inl (by simp only [step, hv, if_neg hw])
  | writing call => exact absurd hv (h call)
  | finished outcome => exact Or.inl (by simp only [step, hv])

/-- It goes on to make a call only if it has just found everything synced. -/
theorem synced_of_writing {poll : Poll} {wake : Time} (hv : v.stage = .polling poll wake)
    {call : Call} (h : v.look.stage = .writing call) :
    v.sources.areSynced = true ∧ v.look.seen = some v.sources := by
  simp only [look, hv, StatusStage.look] at h ⊢
  cases hs : v.sources.areSynced with
  | true => exact ⟨rfl, rfl⟩
  | false =>
    rw [hs] at h
    simp only [Bool.false_eq_true, if_false] at h
    split at h <;> cases h

/-- A turn from `v` to `w` in which the call `x` is made. -/
structure CallMade (v : Visit resource key) (x : Exchange resource.toKind) (w : Visit resource key) :
    Prop where
  synced : v.sources.areSynced = true
  unsent : v.sent = none
  seen : w.seen = some v.sources
  sent : w.sent = some x
  ended : ∃ outcome, w.stage = .finished outcome

theorem finished_answer (call : Call) (a : Outcome) :
    ∃ outcome, (StatusStage.writing call).answer a = .finished outcome := by
  cases a with
  | ok a => exact ⟨_, rfl⟩
  | error e => exact ⟨_, rfl⟩

/-- In a turn a call is made and answered, or it is a step without a call. -/
theorem turn_cases (h : Resting v) (hv : Stands v) (t : VisitTurn) :
    (∃ x, v.call? t = some x ∧ CallMade v x (v.turn t)) ∨
    v.call? t = none ∧ ∃ e, v.turn t = v.step e ∧ Resting (v.step e) ∧ (v.step e).sent = v.sent := by
  cases t with
  | observe s => exact Or.inr ⟨rfl, .observe s, rfl, h, rfl⟩
  | meddle m => exact Or.inr ⟨rfl, .meddle m, rfl, h, rfl⟩
  | pass span => exact Or.inr ⟨rfl, .pass span, rfl, h, rfl⟩
  | go transit takes =>
    rcases h.go takes with hstays | ⟨⟨poll, wake, hpolling⟩, hlooks⟩
    · have hrests : Resting (v.step (.go takes)) := by rw [hstays]; exact h
      obtain ⟨hnone, hturn⟩ := turn_go_resting transit hrests
      exact Or.inr ⟨hnone, .go takes, hturn, hrests, by rw [hstays]⟩
    · by_cases hw : ∃ call, v.look.stage = .writing call
      · obtain ⟨call, hw⟩ := hw
        obtain ⟨hsynced, hseen⟩ := synced_of_writing hpolling hw
        obtain ⟨x, hx, -, hturn⟩ := turn_go_writing transit hlooks hw
        simp only [Stands, hpolling] at hv
        refine Or.inl ⟨x, hx, ?_⟩
        rw [hturn]
        refine ⟨hsynced, hv.2, hseen, rfl, ?_⟩
        simp only [take, hw]
        exact finished_answer call x.outcome
      · have hrests : Resting (v.step (.go takes)) := by
          rw [hlooks]
          exact fun call hcall => hw ⟨call, hcall⟩
        obtain ⟨hnone, hturn⟩ := turn_go_resting transit hrests
        exact Or.inr ⟨hnone, .go takes, hturn, hrests, by rw [hlooks]; rfl⟩

namespace Resting

theorem turn (h : Resting v) (hv : Stands v) (t : VisitTurn) : Resting (v.turn t) := by
  rcases turn_cases h hv t with ⟨x, -, hcalls⟩ | ⟨-, e, hturn, hrests, -⟩
  · obtain ⟨outcome, hended⟩ := hcalls.ended
    intro call hcall
    cases hended.symm.trans hcall
  · rw [hturn]
    exact hrests

theorem course (h : Resting v) (hv : Stands v) (turns : List VisitTurn) :
    Resting (v.course turns) := by
  induction turns generalizing v with
  | nil => exact h
  | cons t rest ih => exact ih (h.turn hv t) (hv.run (v.steps t))

theorem sent_turn (h : Resting v) (hv : Stands v) (t : VisitTurn) :
    v.sent.toList ++ (v.call? t).toList = (v.turn t).sent.toList := by
  rcases turn_cases h hv t with ⟨x, hx, hcalls⟩ | ⟨hnone, e, hturn, -, hsent⟩
  · rw [hx, hcalls.unsent, hcalls.sent]
    rfl
  · rw [hnone, hturn, hsent, Option.toList_none, List.append_nil]

/-- A reconcile makes at most one call, the one that it has sent. -/
theorem calls_course (h : Resting v) (hv : Stands v) (turns : List VisitTurn) :
    v.sent.toList ++ v.calls turns = (v.course turns).sent.toList := by
  induction turns generalizing v with
  | nil => exact List.append_nil _
  | cons t rest ih =>
    rw [calls, ← List.append_assoc, h.sent_turn hv, course_cons]
    exact ih (h.turn hv t) (hv.run (v.steps t))

end Resting

/-- Once a reconcile has ended nothing that it has done changes any more. -/
theorem run_finished {outcome : ReconcileOutcome} (h : v.stage = .finished outcome)
    (events : List VisitEvent) :
    (v.run events).seen = v.seen ∧ (v.run events).sent = v.sent := by
  induction events generalizing v with
  | nil => exact ⟨rfl, rfl⟩
  | cons e rest ih =>
    have hstep : (v.step e).stage = .finished outcome ∧ (v.step e).seen = v.seen ∧
        (v.step e).sent = v.sent := by
      cases e <;> simp [step, h]
    obtain ⟨hstage, hseen, hsent⟩ := hstep
    obtain ⟨hseen', hsent'⟩ := ih hstage
    exact ⟨hseen'.trans hseen, hsent'.trans hsent⟩

/-- Its call is made when everything is synced, and is decided on by what is seen right then. -/
theorem seen_of_call (h : Resting v) (hv : Stands v) {x : Exchange resource.toKind}
    (hx : v.call? t = some x) (after : List VisitTurn) : v.sources.areSynced = true ∧
      (v.course (t :: after)).seen = some v.sources ∧ (v.course (t :: after)).sent = some x := by
  rcases turn_cases h hv t with ⟨y, hy, hcalls⟩ | ⟨hnone, -⟩
  · cases hx.symm.trans hy
    obtain ⟨outcome, hended⟩ := hcalls.ended
    obtain ⟨events, hrun⟩ := (v.turn t).course_eq_run after
    obtain ⟨hseen, hsent⟩ := run_finished hended events
    rw [course_cons, hrun]
    exact ⟨hcalls.synced, hseen.trans hcalls.seen, hsent.trans hcalls.sent⟩
  · cases hx.symm.trans hnone

/-- Without having found everything synced it makes no call and can only end for that. -/
def Waits (v : Visit resource key) : Prop :=
  v.seen = none → v.sent = none ∧ ∀ outcome, v.stage = .finished outcome → outcome = .notSynced

namespace Waits

theorem look {poll : Poll} {wake : Time} (hv : v.stage = .polling poll wake)
    (hsent : v.sent = none) : Waits v.look := by
  intro hseen
  refine ⟨hsent, fun outcome hended => ?_⟩
  have hunsynced : v.sources.areSynced = false := by
    simp only [Visit.look] at hseen
    split at hseen
    · cases hseen
    · rename_i hs
      exact Bool.eq_false_iff.mpr hs
  simp only [Visit.look, hv, StatusStage.look, hunsynced, Bool.false_eq_true, if_false] at hended
  split at hended <;> cases hended
  rfl

theorem step (h : Waits v) (hv : Stands v) (e : VisitEvent) : Waits (v.step e) := by
  cases e with
  | observe s => exact h
  | meddle m => exact h
  | pass span => exact h
  | go takes =>
    cases hstage : v.stage with
    | polling poll wake =>
      simp only [Visit.step, hstage]
      split
      · simp only [Stands, hstage] at hv
        exact look hstage hv.2
      · exact h
    | writing call =>
      simp only [Visit.step, hstage]
      simp only [Stands, hstage] at hv
      obtain ⟨-, s, hseen, -⟩ := hv
      intro hnone
      cases hnone.symm.trans hseen
    | finished outcome => simpa only [Visit.step, hstage] using h

theorem run (h : Waits v) (hv : Stands v) (events : List VisitEvent) : Waits (v.run events) := by
  induction events generalizing v with
  | nil => exact h
  | cons e rest ih => exact ih (h.step hv e) (hv.step e)

theorem start (s : StatusSources) (store : MemoryStore) (syncTimeout : Span) (now : Time) :
    Waits (.start s store syncTimeout now : Visit resource key) := by
  intro _
  refine ⟨rfl, fun outcome hended => ?_⟩
  cases hended

theorem course (h : Waits v) (hv : Stands v) (turns : List VisitTurn) :
    Waits (v.course turns) := by
  obtain ⟨events, hrun⟩ := v.course_eq_run turns
  rw [hrun]
  exact h.run hv events

end Waits

/-- An object as an update may leave it: its clusters are replaced and all else is as it was. -/
structure Overwrites (existing updated : Object) (clusters : Json) : Prop where
  types : updated.types = existing.types
  metadata : updated.metadata = existing.metadata
  clusters : updated.data.member? "clusters" = some clusters
  /-- Data that is no map gives way to one. -/
  others : ∀ m, existing.data = .object m →
    updated.data.dropMember "clusters" = existing.data.dropMember "clusters"

/-- A new status object: it is named like the key, tells the federated resource's generation, and
that resource is its only owner. -/
structure Founds (key : Name) (federated created : Object) (clusters : Json) : Prop where
  name : created.metadata.name = some key.name
  scope : created.metadata.scope = key.scope?
  owner : ∃ k, federated.kind = .ok k ∧ created.metadata.ownerReferences = some
    [⟨k.apiVersion, k.kind, federated.anyName, federated.metadata.uid.getD "", none, none⟩]
  generation : created.data.member? "observedGeneration" =
    some (.ofInt (federated.metadata.generation.getD 0))
  clusters : created.data.member? "clusters" = some clusters

/-- The federated resource is there, is not being deleted, and its target can be looked up in all
ready clusters. -/
structure Observable (s : StatusSources) (key : Name) (federated : Object) : Prop where
  found : s.federated.find? key = some federated
  present : federated.isBeingDeleted = false
  lookedUp : ∀ c ∈ s.clusters.names, s.targets.lookup c key ≠ none

/-- The cluster entries that are computed for a federated resource. -/
def computed (s : StatusSources) (key : Name) (federated : Object) : AggregatedStatus :=
  s.rolledUp key (federated.metadata.generation.getD 0)

/-- What a reconcile that has seen `s` owes, exit by exit. -/
structure Disciplined (s : StatusSources) (resource : Resource) (key : Name)
    (sent : Option (Exchange resource.toKind)) (outcome : ReconcileOutcome) : Prop where
  gone : (∀ federated, s.federated.find? key = some federated → federated.isBeingDeleted = true) →
    sent = none ∧ outcome = .allOk
  unreadable : ∀ federated, s.federated.find? key = some federated →
    federated.isBeingDeleted = false →
      (∃ c ∈ s.clusters.names, s.targets.lookup c key = none) → sent = none ∧ outcome = .error
  upToDate : ∀ federated, Observable s key federated → ∀ existing,
    s.status.find? key = some existing → shows existing (computed s key federated) = true →
      sent = none ∧ outcome = .allOk
  updates : ∀ federated, Observable s key federated → ∀ existing,
    s.status.find? key = some existing → shows existing (computed s key federated) = false →
      ∃ x u, sent = some x ∧ x.call = .update u ∧
        Overwrites existing u (computed s key federated).clustersJson
  unowned : ∀ federated, Observable s key federated → s.status.find? key = none →
    ∀ e, federated.kind = .error e → sent = none ∧ outcome = .error
  creates : ∀ federated, Observable s key federated → s.status.find? key = none →
    ∀ k, federated.kind = .ok k → ∃ x o, sent = some x ∧ x.call = .create o ∧
      Founds key federated o (computed s key federated).clustersJson

section

variable {s : StatusSources} {sent : Option (Exchange resource.toKind)}
  {outcome : ReconcileOutcome}

theorem Ended.of_finish (h : Ended resource key s sent outcome) {o : ReconcileOutcome}
    (hd : s.decide resource key = .finish o) : sent = none ∧ outcome = o := by
  cases h with
  | decided hdecided =>
    rw [hd] at hdecided
    cases hdecided
    exact ⟨rfl, rfl⟩
  | accepted hdecided => cases hd.symm.trans hdecided
  | rejected hdecided => cases hd.symm.trans hdecided

theorem Ended.of_write (h : Ended resource key s sent outcome) {call : Call}
    (hd : s.decide resource key = .write call) : ∃ x, sent = some x ∧ x.call = call := by
  cases h with
  | decided hdecided => cases hd.symm.trans hdecided
  | accepted hdecided =>
    rw [hd] at hdecided
    cases hdecided
    exact ⟨_, rfl, rfl⟩
  | rejected hdecided =>
    rw [hd] at hdecided
    cases hdecided
    exact ⟨_, rfl, rfl⟩

theorem any_failing_iff : s.clusters.names.any s.targets.failing.contains = true ↔
    ∃ c ∈ s.clusters.names, s.targets.lookup c key = none := by
  simp [TargetObjects.lookup]

theorem Observable.decide {federated : Object} (h : Observable s key federated)
    (hs : s.areSynced = true) : s.decide resource key =
      s.write resource key federated (computed s key federated) := by
  have hlookedUp : s.clusters.names.any s.targets.failing.contains = false := by
    rw [Bool.eq_false_iff, ne_eq, any_failing_iff]
    rintro ⟨c, hready, hnone⟩
    exact h.lookedUp c hready hnone
  rw [decide_present h.found h.present, not_failing_of_areSynced hs, hlookedUp]
  rfl

theorem overwrites_writeClustersInto (status : AggregatedStatus) (existing : Object) :
    Overwrites existing (status.writeClustersInto existing) status.clustersJson where
  types := rfl
  metadata := rfl
  clusters := by simp [AggregatedStatus.writeClustersInto]
  others m hm := by
    rw [AggregatedStatus.writeClustersInto, hm, Json.dropMember_setMember]

theorem founds_toObject (resource : Resource) (key : Name) (status : AggregatedStatus)
    {federated : Object} {k : Kind} (hk : federated.kind = .ok k)
    (hg : status.generation = federated.metadata.generation.getD 0) :
    ∃ owner, federated.ownerReference = .ok owner ∧
      Founds key federated (status.toObject resource key.scope? key.name owner)
        status.clustersJson := by
  refine ⟨⟨k.apiVersion, k.kind, federated.anyName, federated.metadata.uid.getD "", none, none⟩,
    ?_, rfl, rfl, ⟨k, hk, rfl⟩, ?_, rfl⟩
  · rw [Object.ownerReference, hk]
    rfl
  · rw [← hg]
    cases hc : status.conditions.isEmpty <;>
      simp [AggregatedStatus.toObject, AggregatedStatus.toJson, Json.member?, Assoc.find?, hc]

theorem Ended.disciplined (h : Ended resource key s sent outcome) (hs : s.areSynced = true) :
    Disciplined s resource key sent outcome where
  gone hgone := by
    apply h.of_finish
    cases hf : s.federated.find? key with
    | none => simp only [StatusSources.decide, hf]
    | some federated => simp only [StatusSources.decide, hf, hgone federated hf, if_true]
  unreadable federated hf hp hc := by
    apply h.of_finish
    rw [decide_present hf hp, not_failing_of_areSynced hs, any_failing_iff.mpr hc]
    rfl
  upToDate federated ho existing he hshows := by
    apply h.of_finish
    simp only [ho.decide hs, write, he, hshows, if_true]
  updates federated ho existing he hshows := by
    have hd : s.decide resource key =
        .write (.update ((computed s key federated).writeClustersInto existing)) := by
      simp only [ho.decide hs, write, he, hshows, Bool.false_eq_true, if_false]
    obtain ⟨x, hx, hcall⟩ := h.of_write hd
    exact ⟨x, _, hx, hcall, overwrites_writeClustersInto _ existing⟩
  unowned federated ho hnone e hk := by
    have howner : federated.ownerReference = .error e := by
      rw [Object.ownerReference, hk]
      rfl
    apply h.of_finish
    simp only [ho.decide hs, write, hnone, howner]
  creates federated ho hnone k hk := by
    obtain ⟨owner, howner, hfounds⟩ :=
      founds_toObject resource key (computed s key federated) hk rfl
    have hd : s.decide resource key = .write
        (.create ((computed s key federated).toObject resource key.scope? key.name owner)) := by
      simp only [ho.decide hs, write, hnone, howner]
    obtain ⟨x, hx, hcall⟩ := h.of_write hd
    exact ⟨x, _, hx, hcall, hfounds⟩

/-- Where everything is synced, a reconcile that makes no call ends well or with an error. -/
theorem finished_of_decide (hs : s.areSynced = true) {o : ReconcileOutcome}
    (hd : s.decide resource key = .finish o) : o = .allOk ∨ o = .error := by
  cases hf : s.federated.find? key with
  | none =>
    simp only [StatusSources.decide, hf] at hd
    cases hd
    exact Or.inl rfl
  | some federated =>
    cases hp : federated.isBeingDeleted with
    | true =>
      simp only [StatusSources.decide, hf, hp, if_true] at hd
      cases hd
      exact Or.inl rfl
    | false =>
      rw [decide_present hf hp, not_failing_of_areSynced hs] at hd
      simp only [Bool.false_eq_true, if_false] at hd
      split at hd
      · cases hd
        exact Or.inr rfl
      · unfold write at hd
        split at hd <;> split at hd <;> cases hd
        · exact Or.inr rfl
        · exact Or.inl rfl

theorem Ended.outcome_iff (h : Ended resource key s sent outcome) (hs : s.areSynced = true) :
    outcome ≠ .notSynced ∧ (outcome = .error → sent = none) ∧
      (outcome = .needsRecheck ↔ ∃ x e, sent = some x ∧ x.outcome = .error e) := by
  cases h with
  | decided hdecided => rcases finished_of_decide hs hdecided with rfl | rfl <;> simp
  | @accepted x a hdecided ha => simp [ha]
  | @rejected x e hdecided ha => simp [ha]

end

/-- A reconcile makes at most one call, the one that it has sent, and makes it when everything is
synced. It ends as soon as it has found that. It makes no call where it ends unsynced or with an
error, and has to be checked again exactly if its call failed. What it owes otherwise follows from
what it saw when it decided. -/
theorem calls_in_discipline (sources : StatusSources) (store : MemoryStore) (syncTimeout : Span)
    (began : Time) (turns : List VisitTurn) {v : Visit resource key}
    (hv : (start sources store syncTimeout began).course turns = v) :
    (start sources store syncTimeout began : Visit resource key).calls turns = v.sent.toList ∧
    (∀ before t after x, turns = before ++ t :: after → ∀ u : Visit resource key,
      (start sources store syncTimeout began).course before = u → u.call? t = some x →
        u.sources.areSynced = true ∧ v.seen = some u.sources ∧ v.sent = some x) ∧
    (∀ s, v.seen = some s → ∃ outcome, v.stage = .finished outcome) ∧
    ∀ outcome, v.stage = .finished outcome →
      (v.seen = none ↔ outcome = .notSynced) ∧
      (outcome = .notSynced ∨ outcome = .error → v.sent = none) ∧
      (outcome = .needsRecheck ↔ ∃ x e, v.sent = some x ∧ x.outcome = .error e) ∧
      ∀ s, v.seen = some s → s.areSynced = true ∧ Disciplined s resource key v.sent outcome := by
  have hrests : Resting (start sources store syncTimeout began : Visit resource key) := by
    intro call hcall
    cases hcall
  have hstands : Stands (start sources store syncTimeout began : Visit resource key) :=
    Stands.start sources store syncTimeout began
  have hwaits : Waits v := by
    rw [← hv]
    exact (Waits.start sources store syncTimeout began).course hstands turns
  have hlast : Stands v := hv ▸ hstands.course turns
  refine ⟨?_, ?_, ?_, ?_⟩
  · rw [← hv, ← hrests.calls_course hstands turns]
    rfl
  · intro before t after x hturns u hu hx
    rw [hturns, course_append, hu] at hv
    rw [← hv]
    exact seen_of_call (hu ▸ hrests.course hstands before) (hu ▸ hstands.course before) hx after
  · intro s hseen
    cases hstage : v.stage with
    | polling poll wake =>
      simp only [Stands, hstage] at hlast
      cases hlast.1.symm.trans hseen
    | writing call => exact absurd hstage ((hv ▸ hrests.course hstands turns : Resting v) call)
    | finished outcome => exact ⟨outcome, rfl⟩
  · intro outcome hended
    have hends : outcome ≠ .allOk ∧ v.seen = none ∨
        ∃ s, v.seen = some s ∧ s.areSynced = true ∧ Ended resource key s v.sent outcome := by
      simpa only [Stands, hended] using hlast
    rcases hends with ⟨-, hnone⟩ | ⟨s, hseen, hs, hends⟩
    · obtain ⟨hsent, houtcome⟩ := hwaits hnone
      cases houtcome outcome hended
      simp [hnone, hsent]
    · obtain ⟨hne, herror, hrecheck⟩ := hends.outcome_iff hs
      have hquiet : outcome = .notSynced ∨ outcome = .error → v.sent = none := by
        rintro (h | h)
        · exact absurd h hne
        · exact herror h
      refine ⟨by simp [hseen, hne], hquiet, hrecheck, ?_⟩
      intro r hr
      cases hseen.symm.trans hr
      exact ⟨hs, hends.disciplined hs⟩

end Visit

def StatusStage.outcome? : StatusStage → Option ReconcileOutcome
  | .finished outcome => some outcome
  | _ => none

theorem StatusStage.eq_of_outcome? {stage : StatusStage} {outcome : ReconcileOutcome}
    (h : stage.outcome? = some outcome) : stage = .finished outcome := by
  cases stage with
  | polling poll wake => cases h
  | writing call => cases h
  | finished o =>
    cases h
    rfl

namespace Visit.Sample

/-- A status object that does not show the clusters. -/
def outdated : Object :=
  (object "FederatedDeploymentStatus" [("clusters", .null), ("extra", .bool true)])
    |>.setResourceVersion (some "7")

def behind : StatusSources := { sources with status := sources.status.put outdated }

/-- A target cache becomes complete while the reconcile waits for it. The status object has gone
from the store. -/
def rebuffed : Visit resource key :=
  (start (behind.onTargets (·.setUnsynced "west" true)) .empty 30000 0).course
    [.go [] 3, .observe behind, .pass 10000, .go [.fault .create .conflict] 5]

end Visit.Sample

/-- The update keeps what else the status object says, and fails. -/
theorem Visit.calls_in_discipline_sample : Sample.rebuffed.stage = .finished .needsRecheck ∧
    ∃ x u e, Sample.rebuffed.sent = some x ∧ x.call = .update u ∧ x.outcome = .error e ∧
      u.metadata.resourceVersion = some "7" ∧ u.data.member? "extra" = some (.bool true) ∧
      u.data.member? "clusters" = some (computed Sample.behind Sample.key
        (Sample.object "FederatedDeployment" [])).clustersJson := by
  have hended : Sample.rebuffed.stage = .finished .needsRecheck :=
    StatusStage.eq_of_outcome? (by decide +kernel)
  have hseen : Sample.rebuffed.seen = some Sample.behind := rfl
  have hobservable : Observable Sample.behind Sample.key
      (Sample.object "FederatedDeployment" []) :=
    ⟨by decide +kernel, rfl, by decide +kernel⟩
  have hcached : Sample.behind.status.find? Sample.key = some Sample.outdated := by decide +kernel
  have hdiffers : StatusSources.shows Sample.outdated
      (computed Sample.behind Sample.key (Sample.object "FederatedDeployment" [])) = false := by
    decide +kernel
  obtain ⟨-, -, -, hends⟩ := calls_in_discipline _ _ _ _ _ (v := Sample.rebuffed) rfl
  obtain ⟨-, -, hrecheck, howes⟩ := hends .needsRecheck hended
  obtain ⟨x, e, hsent, hfailed⟩ := hrecheck.mp rfl
  obtain ⟨-, howes⟩ := howes Sample.behind hseen
  obtain ⟨y, u, hy, hcall, hover⟩ :=
    howes.updates _ hobservable Sample.outdated hcached hdiffers
  cases hsent.symm.trans hy
  refine ⟨hended, x, u, e, hsent, hcall, hfailed, ?_, ?_, hover.clusters⟩
  · rw [hover.metadata]
    rfl
  · have hkept : u.data.member? "extra" = Sample.outdated.data.member? "extra" := by
      simpa using congrArg (·.member? "extra") (hover.others _ rfl)
    exact hkept.trans rfl

end FedTrack
