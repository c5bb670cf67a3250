import FedTrack.Proofs.Version.Errand
import FedTrack.Proofs.Version.Journey

namespace FedTrack

namespace Errand

/-- The store call that the next step of a call makes, if it makes one. -/
def call? (m : VersionManager) : Errand → Option Call
  | .syncing .listing => some (SyncStage.call m)
  | .updating u => u.call?
  | _ => none

theorem step_updating (now : Time) (x : Site) (u : UpdateStage) : step now x (.updating u) =
    ((UpdateStage.step now x u).1,
      match (UpdateStage.step now x u).2 with
      | .finished result => .inr (.updated result)
      | stage => .inl (.updating stage)) := by
  generalize hz : UpdateStage.step now x u = z
  obtain ⟨y, stage⟩ := z
  unfold step
  dsimp only
  rw [hz]
  cases stage <;> rfl

@[simp] theorem setup_step (now : Time) (x : Site) (e : Errand) :
    (e.step now x).1.manager.setup = x.manager.setup := by
  cases e with
  | getting resource => rfl
  | deleting resource => rfl
  | syncing stage => cases stage <;> rfl
  | loading outcome =>
    cases outcome with
    | error e => rfl
    | ok a => cases a <;> rfl
  | updating u =>
    rw [step_updating]
    cases u with
    | adopting name version => exact VersionManager.setup_adopt name version
    | finished result => rfl
    | preparing r =>
      have hb := UpdateStage.step_preparing now x r
      generalize UpdateStage.step now x (.preparing r) = z at hb ⊢
      cases hb <;> rfl
    | writing name w =>
      have hw := UpdateStage.step_writing now x name w
      generalize UpdateStage.step now x (.writing name w) = z at hw ⊢
      cases hw with
      | on hm _ _ => exact congrArg VersionManager.setup hm
      | failed hm _ => exact congrArg VersionManager.setup hm
      | saved hm _ => exact congrArg VersionManager.setup hm

end Errand

/-- A call to a manager: where it stands, and what it has called the store for so far, the latest
first. -/
structure Matter where
  stands : Errand ⊕ Reply
  calls : List Call

/-- A manager over a store, and all calls that were made to it. -/
structure Docket where
  site : Site
  matters : List Matter

/-- What can happen next, in any order. -/
inductive DocketEvent
  /-- Others use the store. -/
  | meddle (m : Meddling)
  | ask (d : Demand)
  /-- The `i`th call takes a step. -/
  | go (i : Nat) (now : Time)

def Matter.step (now : Time) (x : Site) (e : Errand) (calls : List Call) : Matter :=
  ⟨(e.step now x).2, (e.call? x.manager).toList ++ calls⟩

namespace Docket

def step (s : Docket) : DocketEvent → Docket
  | .meddle m => { s with site := ⟨s.site.manager, s.site.store.meddle m⟩ }
  | .ask d => { s with matters := s.matters ++ [⟨.inl d.errand, []⟩] }
  | .go i now =>
    match s.matters[i]? with
    | some ⟨.inl e, calls⟩ =>
      ⟨(e.step now s.site).1, s.matters.set i (.step now s.site e calls)⟩
    | _ => s

def run (s : Docket) (events : List DocketEvent) : Docket := events.foldl step s

variable {s : Docket} {i : Nat}

theorem step_go {e : Errand} {calls : List Call} (h : s.matters[i]? = some ⟨.inl e, calls⟩)
    (now : Time) : s.step (.go i now) =
      ⟨(e.step now s.site).1, s.matters.set i (.step now s.site e calls)⟩ := by
  simp only [step, h]

theorem step_go_ended {r : Reply} {calls : List Call}
    (h : s.matters[i]? = some ⟨.inr r, calls⟩) (now : Time) : s.step (.go i now) = s := by
  simp only [step, h]

theorem matters_go {e : Errand} {calls : List Call} (h : s.matters[i]? = some ⟨.inl e, calls⟩)
    (now : Time) : (s.step (.go i now)).matters[i]? = some (.step now s.site e calls) := by
  have hlt : i < s.matters.length := (List.getElem?_eq_some_iff.mp h).1
  rw [step_go h, List.getElem?_set_self hlt]

@[simp] theorem setup_step (s : Docket) (event : DocketEvent) :
    (s.step event).site.manager.setup = s.site.manager.setup := by
  cases event with
  | meddle m => rfl
  | ask d => rfl
  | go j now =>
    unfold step
    dsimp only
    split
    · exact Errand.setup_step now s.site _
    · rfl

/-- An event leaves a call where it stands, or it is a step of that call. -/
theorem matters_step {a : Matter} (h : s.matters[i]? = some a) (event : DocketEvent) :
    (s.step event).matters[i]? = some a ∨ ∃ e now, event = .go i now ∧ a.stands = .inl e ∧
      (s.step event).matters[i]? = some (.step now s.site e a.calls) := by
  cases event with
  | meddle m => exact Or.inl h
  | ask d =>
    have hlt : i < s.matters.length := (List.getElem?_eq_some_iff.mp h).1
    left
    rw [step, List.getElem?_append_left hlt]
    exact h
  | go j now =>
    by_cases hj : j = i
    · subst hj
      obtain ⟨stands, calls⟩ := a
      cases stands with
      | inl e => exact Or.inr ⟨e, now, rfl, rfl, matters_go h now⟩
      | inr r =>
        rw [step_go_ended h]
        exact Or.inl h
    · left
      unfold step
      dsimp only
      split
      · rw [List.getElem?_set_ne hj]
        exact h
      · exact h

/-- What each step of a call preserves holds of it for good. -/
theorem matters_run {P : Matter → Prop} (hstep : ∀ now x e calls, P ⟨.inl e, calls⟩ →
      P (.step now x e calls)) {a : Matter} (h : s.matters[i]? = some a) (ha : P a)
    (events : List DocketEvent) : ∃ b, (s.run events).matters[i]? = some b ∧ P b := by
  induction events generalizing s a with
  | nil => exact ⟨a, h, ha⟩
  | cons event rest ih =>
    rcases matters_step h event with hsame | ⟨e, now, -, hstands, hnext⟩
    · exact ih hsame ha
    · refine ih hnext (hstep now s.site e a.calls ?_)
      rw [← hstands]
      exact ha

/-- A call that has ended stays as it is. -/
theorem ended_run {r : Reply} {calls : List Call} (h : s.matters[i]? = some ⟨.inr r, calls⟩)
    (events : List DocketEvent) : (s.run events).matters[i]? = some ⟨.inr r, calls⟩ := by
  obtain ⟨b, hb, rfl⟩ := matters_run (P := fun b => b = ⟨.inr r, calls⟩)
    (fun now x e calls he => by cases he) h rfl events
  exact hb

end Docket

/-- The call has called the store, or it does so with its next step. -/
def Matter.Reaches (a : Matter) : Prop :=
  a.calls ≠ [] ∨ ∃ e, a.stands = .inl e ∧ ∀ m, e.call? m ≠ none

theorem Matter.Reaches.step {e : Errand} {calls : List Call} (h : Reaches ⟨.inl e, calls⟩)
    (now : Time) (x : Site) : (Matter.step now x e calls).Reaches := by
  left
  rcases h with hcalls | ⟨e', he, hcall⟩
  · exact List.append_ne_nil_of_right_ne_nil _ hcalls
  · cases he
    obtain ⟨c, hc⟩ := Option.ne_none_iff_exists'.mp (hcall x.manager)
    simp [Matter.step, hc]

/-- A call that has reached the store, or is about to, does not end without having called it. -/
theorem Docket.calls_ne_nil {s : Docket} {i : Nat} {a : Matter} (h : s.matters[i]? = some a)
    (ha : a.Reaches) {events : List DocketEvent} {r : Reply} {calls : List Call}
    (hend : (s.run events).matters[i]? = some ⟨.inr r, calls⟩) : calls ≠ [] := by
  obtain ⟨b, hb, hreach⟩ := matters_run (fun now x e calls he => he.step now x) h ha events
  rw [hend] at hb
  cases hb
  rcases hreach with hcalls | ⟨e, he, -⟩
  · exact hcalls
  · cases he

/-! The first step of an update. -/

/-- A write begins with a call. -/
theorem Write.call?_start (record : Object) (now : Time) (name : Name) :
    (Write.start record now).call? name ≠ none := by
  have hdirection (token : Option String) :
      (⟨record, token, false, .start interval timeout now, direction token⟩ : Write).call? name ≠
        none := by
    cases token <;> exact Option.some_ne_none _
  exact hdirection record.resourceVersion

/-- What the first step of the `i`th call, an update of `r`, leads to. -/
inductive Docket.Opened (s : Docket) (i : Nat) (r : UpdateRequest) : Docket → Prop
  | refused {t : Docket} {e : VersionError} (hp : s.site.manager.prepare r = .error e)
      (hsite : t.site = s.site)
      (ht : t.matters[i]? = some ⟨.inr (.updated (.error e)), []⟩) : Opened s i r t
  | idle {t : Docket} (hp : s.site.manager.prepare r = .ok (s.site.manager, none))
      (hsite : t.site = s.site) (ht : t.matters[i]? = some ⟨.inr (.updated (.ok ())), []⟩) :
      Opened s i r t
  | changed {t : Docket} {record : Object} {now : Time}
      (hp : s.site.manager.prepare r =
        .ok (s.site.manager.cache (s.site.key r) record, some record))
      (hsite : t.site = ⟨s.site.manager.cache (s.site.key r) record, s.site.store⟩)
      (ht : t.matters[i]? =
        some ⟨.inl (.updating (.writing (s.site.key r) (Write.start record now))), []⟩) :
      Opened s i r t

theorem Docket.opened {s : Docket} {i : Nat} {r : UpdateRequest}
    (h : s.matters[i]? = some ⟨.inl (.updating (.preparing r)), []⟩) (now : Time) :
    s.Opened i r (s.step (.go i now)) := by
  have hsite : (s.step (.go i now)).site =
      (Errand.step now s.site (.updating (.preparing r))).1 := by rw [step_go h]
  have ht := matters_go h now
  have hcalls : (Errand.call? s.site.manager (.updating (.preparing r))).toList ++ [] = [] := rfl
  rw [Matter.step, hcalls] at ht
  rw [Errand.step_updating] at hsite ht
  cases hp : s.site.manager.prepare r with
  | error e =>
    simp only [UpdateStage.step, UpdateStage.prepare, hp] at hsite ht
    exact .refused hp hsite ht
  | ok p =>
    obtain ⟨m, record⟩ := p
    cases record with
    | none =>
      obtain ⟨rfl, -⟩ := VersionManager.prepare_none hp
      simp only [UpdateStage.step, UpdateStage.prepare, hp] at hsite ht
      exact .idle hp hsite ht
    | some record =>
      obtain ⟨rfl, -, -⟩ := VersionManager.prepare_some hp
      have hk : (s.site.manager.cache (s.site.manager.recordName r.resource.name) record).recordName
          r.resource.name = s.site.key r :=
        VersionManager.recordName_congr (VersionManager.setup_prepare hp) _
      simp only [UpdateStage.step, UpdateStage.prepare, hp, hk] at hsite ht
      exact .changed hp hsite ht

/-- An update that has something to write calls the store before it ends. -/
theorem Docket.Opened.calls_ne_nil {s t : Docket} {i : Nat} {r : UpdateRequest} {record : Object}
    {now : Time} (ht : t.matters[i]? =
      some ⟨.inl (.updating (.writing (s.site.key r) (Write.start record now))), []⟩)
    {events : List DocketEvent} {reply : Reply} {calls : List Call}
    (hend : (t.run events).matters[i]? = some ⟨.inr reply, calls⟩) : calls ≠ [] :=
  Docket.calls_ne_nil ht (Or.inr ⟨_, rfl, fun _ => Write.call?_start record now _⟩) hend

end FedTrack
