import FedTrack.Proofs.Version.Bureau

namespace FedTrack

namespace Write

/-- How many more pauses end before the deadline. -/
def slots (w : Write) (now : Time) : Nat := (w.poll.deadline - now) / interval

/-- How many more steps the write can take: an attempt makes three calls at most, and each further
one begins with the end of a pause. -/
def rank (w : Write) (now : Time) : Nat :=
  match w.stage with
  | .refreshing => 4 + 4 * w.slots now
  | .creating => 3 + 4 * w.slots now
  | .updating => 2 + 4 * w.slots now
  | .sleeping wake => 5 + 4 * w.slots wake
  | .done _ => 0

def Paced (w : Write) : Prop := w.poll.interval = interval

variable {w : Write} {now : Time}

theorem slots_le {later : Time} (h : now ≤ later) : w.slots later ≤ w.slots now :=
  Nat.div_le_div_right (Nat.sub_le_sub_left h _)

theorem rank_le {later : Time} (h : now ≤ later) : w.rank later ≤ w.rank now := by
  have hs := slots_le (w := w) h
  unfold rank
  split <;> omega

/-- A pause takes up the place of one. -/
theorem slots_after {t d : Nat} (h : t + interval ≤ d) :
    (d - (t + interval)) / interval + 1 ≤ (d - t) / interval := by
  simp only [interval] at h ⊢
  omega

theorem rank_retry (h : w.Paced) (now : Time) : (w.retry now).rank now ≤ 1 + 4 * w.slots now := by
  have hinterval : w.poll.interval = interval := h
  unfold retry Poll.retry
  dsimp only
  by_cases late : w.poll.deadline < now + w.poll.interval
  · rw [if_pos late]
    exact Nat.zero_le _
  · rw [if_neg late]
    have hs := slots_after (t := now) (hinterval ▸ Nat.not_lt.mp late)
    simp only [rank, slots, hinterval]
    omega

theorem rank_direction (record : Object) (token token' : Option String) (refresh : Bool)
    (poll : Poll) (now : Time) : rank ⟨record, token', refresh, poll, direction token⟩ now ≤
      3 + 4 * ((poll.deadline - now) / interval) := by
  cases token with
  | none => exact Nat.le_refl _
  | some v => exact Nat.add_le_add_right (by decide) _

theorem rank_opening (record : Object) (token token' : Option String) (refresh refresh' : Bool)
    (poll : Poll) (now : Time) : rank ⟨record, token', refresh', poll, opening token refresh⟩ now ≤
      4 + 4 * ((poll.deadline - now) / interval) := by
  cases refresh with
  | true => exact Nat.le_refl _
  | false =>
    have hd := rank_direction record token token' refresh' poll now
    exact Nat.le_trans hd (Nat.add_le_add_right (by decide) _)

theorem rank_wake {wake : Time} (h : w.stage = .sleeping wake) (hle : wake ≤ now) :
    w.wake.rank now < w.rank now := by
  have hs := slots_le (w := w) hle
  have hwake : w.wake = { w with stage := opening w.token w.refresh } := by
    simp only [Write.wake, h]
  have hrank : w.rank now = 5 + 4 * w.slots wake := by
    simp only [rank, h]
  have hopening := rank_opening w.record w.token w.token w.refresh w.refresh w.poll now
  rw [hwake, hrank]
  unfold slots at hs ⊢
  omega

theorem paced_answer (h : w.Paced) {name : Name} {c : Call} (hc : w.call? name = some c)
    (outcome : Outcome) : (w.answer outcome now).Paced :=
  (answered_answer hc outcome now).interval.trans h

/-- Each answer brings the write closer to its end. -/
theorem rank_answer (h : w.Paced) {name : Name} {c : Call} (hc : w.call? name = some c)
    (now : Time) (outcome : Outcome) : (w.answer outcome now).rank now < w.rank now ∧ 1 < w.rank now := by
  have hretry {w' : Write} (hpoll : w'.poll = w.poll) :
      (w'.retry now).rank now ≤ 1 + 4 * w.slots now := by
    have hpaced : w'.Paced := (congrArg Poll.interval hpoll).trans h
    have hr := rank_retry hpaced now
    rw [slots, hpoll] at hr
    exact hr
  have hrefused {e : StoreError} :
      (w.retryUnlessForbidden e now).rank now ≤ 1 + 4 * w.slots now := by
    unfold retryUnlessForbidden
    split
    · exact Nat.zero_le _
    · exact hretry rfl
  cases hs : w.stage with
  | refreshing =>
    have hrank : w.rank now = 4 + 4 * w.slots now := by simp only [rank, hs]
    rw [hrank]
    refine ⟨?_, by omega⟩
    cases outcome with
    | ok a =>
      have hd := rank_direction w.record (versionOf a) (versionOf a) false w.poll now
      simp only [Write.answer, hs]
      exact Nat.lt_of_le_of_lt hd (Nat.add_lt_add_right (by decide) _)
    | error e =>
      have hr := hretry (rfl : w.poll = w.poll)
      simp only [Write.answer, hs]
      omega
  | creating =>
    have hrank : w.rank now = 3 + 4 * w.slots now := by simp only [rank, hs]
    rw [hrank]
    refine ⟨?_, by omega⟩
    cases outcome with
    | ok a =>
      simp only [Write.answer, hs]
      exact Nat.add_lt_add_right (by decide) _
    | error e =>
      simp only [Write.answer, hs]
      split
      · exact Nat.lt_of_le_of_lt (hretry rfl) (Nat.add_lt_add_right (by decide) _)
      · exact Nat.lt_of_le_of_lt hrefused (Nat.add_lt_add_right (by decide) _)
  | updating =>
    have hrank : w.rank now = 2 + 4 * w.slots now := by simp only [rank, hs]
    rw [hrank]
    refine ⟨?_, by omega⟩
    cases outcome with
    | ok a =>
      simp only [Write.answer, hs]
      exact Nat.add_pos_left (by decide) _
    | error e =>
      simp only [Write.answer, hs]
      split
      · exact Nat.lt_of_le_of_lt (hretry rfl) (Nat.add_lt_add_right (by decide) _)
      · split
        · exact Nat.lt_of_le_of_lt (hretry rfl) (Nat.add_lt_add_right (by decide) _)
        · exact Nat.lt_of_le_of_lt hrefused (Nat.add_lt_add_right (by decide) _)
  | sleeping wake => simp [call?, hs] at hc
  | done result => simp [call?, hs] at hc

end Write

namespace UpdateStage

def rank (now : Time) : UpdateStage → Nat
  | .preparing _ => 4 + 4 * (Write.timeout / Write.interval)
  | .writing _ w => w.rank now
  | .adopting _ _ => 1
  | .finished _ => 0

/-- A write under way keeps to its interval and has not ended. -/
def Paced : UpdateStage → Prop
  | .writing _ w => w.Paced ∧ ∀ result, w.stage ≠ .done result
  | _ => True

theorem rank_le {now later : Time} (h : now ≤ later) (u : UpdateStage) :
    u.rank later ≤ u.rank now := by
  cases u with
  | writing name w => exact Write.rank_le h
  | _ => exact Nat.le_refl _

theorem rank_prepare (m : VersionManager) (r : UpdateRequest) (now : Time) :
    (prepare m r now).2.Paced ∧
      (prepare m r now).2.rank now < 4 + 4 * (Write.timeout / Write.interval) := by
  unfold prepare
  split
  · exact ⟨trivial, Nat.add_pos_left (by decide) _⟩
  · exact ⟨trivial, Nat.add_pos_left (by decide) _⟩
  · rename_i m' record hp
    have hd := Write.rank_direction record record.resourceVersion record.resourceVersion false
      (Poll.start Write.interval Write.timeout now) now
    have hdeadline : (Poll.start Write.interval Write.timeout now).deadline - now =
        Write.timeout := Nat.add_sub_cancel_left now _
    rw [hdeadline] at hd
    refine ⟨⟨rfl, Write.opening_ne_done _ false⟩, ?_⟩
    exact Nat.lt_of_le_of_lt hd (Nat.add_lt_add_right (by decide) _)

theorem rank_afterWrite {m : VersionManager} {name : Name} {w : Write} {now : Time} {n : Nat}
    (hw : w.Paced) (hn : w.rank now < n) (hone : 1 < n) :
    (afterWrite m name w).Paced ∧ (afterWrite m name w).rank now < n := by
  unfold afterWrite
  split
  · exact ⟨trivial, hone⟩
  · exact ⟨trivial, Nat.lt_of_le_of_lt (Nat.zero_le 1) hone⟩
  · rename_i hok herror
    refine ⟨⟨hw, ?_⟩, hn⟩
    intro result
    cases result with
    | ok version => exact hok version
    | error cause => exact herror cause

/-- Each step brings an update closer to its end. -/
theorem rank_step (x : Site) {now : Time} {u : UpdateStage} (h : u.Paced)
    (hready : u.alarm?.all (· ≤ now) = true) (hgoing : ∀ result, u ≠ .finished result) :
    (step now x u).2.Paced ∧ (step now x u).2.rank now < u.rank now := by
  cases u with
  | preparing r => exact rank_prepare x.manager r now
  | writing name w =>
    obtain ⟨hw, hlive⟩ := h
    cases hc : w.call? name with
    | none =>
      simp only [step, hc]
      cases hs : w.stage with
      | sleeping wake =>
        have hle : wake ≤ now := by simpa [alarm?, hs] using hready
        have hwake : w.wake = { w with stage := Write.opening w.token w.refresh } := by
          simp only [Write.wake, hs]
        refine ⟨?_, Write.rank_wake hs hle⟩
        rw [hwake]
        exact ⟨hw, Write.opening_ne_done _ _⟩
      | done result => exact absurd hs (hlive result)
      | refreshing => simp [Write.call?, hs] at hc
      | creating => simp [Write.call?, hs] at hc
      | updating => simp [Write.call?, hs] at hc
    | some c =>
      obtain ⟨hlt, hone⟩ := Write.rank_answer hw hc now (x.call c).2
      simp only [step, hc]
      exact rank_afterWrite (Write.paced_answer hw hc _) hlt hone
  | adopting name version => exact ⟨trivial, Nat.zero_lt_one⟩
  | finished result => exact absurd rfl (hgoing result)

end UpdateStage

namespace Errand

/-- How many steps a call takes at most. -/
def patience : Nat := 4 + 4 * (Write.timeout / Write.interval)

def rank (now : Time) : Errand → Nat
  | .updating u => u.rank now
  | _ => 1

/-- The call is no sync, which goes on until it is answered, and has not gone on for too long. -/
def Brisk (now : Time) (e : Errand) : Prop :=
  e.rank now ≤ patience ∧
    match e with
    | .syncing _ | .loading _ => False
    | .updating u => u.Paced ∧ ∀ result, u ≠ .finished result
    | .getting _ | .deleting _ => True

theorem brisk_errand {d : Demand} (h : d ≠ .sync) (now : Time) : d.errand.Brisk now := by
  have hone : 1 ≤ patience := by decide
  cases d with
  | sync => exact absurd rfl h
  | update r =>
    refine ⟨Nat.le_refl _, trivial, ?_⟩
    intro result h
    cases h
  | get resource => exact ⟨hone, trivial⟩
  | delete resource => exact ⟨hone, trivial⟩

theorem Brisk.later {now later : Time} {e : Errand} (h : e.Brisk now) (hle : now ≤ later) :
    e.Brisk later := by
  refine ⟨Nat.le_trans ?_ h.1, h.2⟩
  cases e with
  | updating u => exact u.rank_le hle
  | _ => exact Nat.le_refl _

theorem rank_step (x : Site) {now : Time} {e e' : Errand} (h : e.Brisk now)
    (hready : e.ready now = true) (he : (e.step now x).2 = .inl e') :
    e'.Brisk now ∧ e'.rank now < e.rank now := by
  obtain ⟨hrank, hkind⟩ := h
  cases e with
  | syncing stage => exact hkind.elim
  | loading outcome => exact hkind.elim
  | getting resource => cases he
  | deleting resource => cases he
  | updating u =>
    obtain ⟨hpaced, hlt⟩ := UpdateStage.rank_step x hkind.1 hready hkind.2
    unfold step at he
    dsimp only at he
    split at he
    · cases he
    · rename_i y u' hgoing hy
      rw [hy] at hpaced hlt
      cases he
      refine ⟨⟨Nat.le_trans (Nat.le_of_lt hlt) hrank, hpaced, ?_⟩, hlt⟩
      intro result hr
      subst hr
      exact hgoing result rfl

end Errand

namespace Bureau

variable {ι κ : Type} [DecidableEq ι] [DecidableEq κ] {host : ι → κ} {b : Bureau ι κ} {i : ι}

/-- The event is a turn of the client's call, and the call is not in a pause. -/
def serves (b : Bureau ι κ) (i : ι) : Event ι → Bool
  | .go j => j = i && (b.errands i).any (·.ready b.now)
  | _ => false

/-- How many turns the calls of a client get that they can use. -/
def turns (host : ι → κ) (i : ι) : Bureau ι κ → List (Event ι) → Nat
  | _, [] => 0
  | b, e :: rest => (b.serves i e).toNat + turns host i (b.step host e) rest

/-- The client has no call that goes on for too long. -/
def Brisk (b : Bureau ι κ) (i : ι) : Prop := ∀ e, b.errands i = some e → e.Brisk b.now

/-- How many more turns the client's call takes, or, if there is none, the next one. -/
def budget (b : Bureau ι κ) (i : ι) : Nat :=
  match b.errands i with
  | some e => e.rank b.now
  | none => Errand.patience

omit [DecidableEq ι] [DecidableEq κ] in
theorem budget_le (h : b.Brisk i) : b.budget i ≤ Errand.patience := by
  unfold budget
  split
  · rename_i e he
    exact (h e he).1
  · exact Nat.le_refl _

/-- A client's call has ended, or a turn of it brings it closer to its end. -/
def Nearer (i : ι) (b : Bureau ι κ) (e : Event ι) (c : Bureau ι κ) : Prop :=
  c.Brisk i ∧ ((b.replies i).length < (c.replies i).length ∨
    (c.replies i).length = (b.replies i).length ∧
      (b.serves i e).toNat + c.budget i ≤ b.budget i)

omit [DecidableEq κ] in
/-- Between the turns of its call a client may have to wait. -/
theorem nearer_wait (h : b.Brisk i) {c : Bureau ι κ} {e : Event ι} (hserves : b.serves i e = false)
    (hnow : b.now ≤ c.now) (herrands : c.errands i = b.errands i)
    (hreplies : c.replies i = b.replies i) : b.Nearer i e c := by
  refine ⟨?_, Or.inr ⟨by rw [hreplies], ?_⟩⟩
  · intro f hf
    rw [herrands] at hf
    exact (h f hf).later hnow
  · rw [hserves, budget, budget, herrands]
    cases b.errands i with
    | none => exact Nat.le_of_eq (Nat.zero_add _)
    | some f =>
      rw [Bool.toNat_false, Nat.zero_add]
      cases f with
      | updating u => exact u.rank_le hnow
      | _ => exact Nat.le_refl _

theorem nearer_turn (h : b.Brisk i) {f : Errand} (hf : b.errands i = some f)
    (hready : f.ready b.now = true) :
    let z := f.step b.now (b.site (host i))
    b.Nearer i (.go i) ((b.setSite (host i) z.1).settle i z.2) := by
  intro z
  generalize hc : (b.setSite (host i) z.1).settle i z.2 = c
  have hnow : c.now = b.now := by
    rw [← hc, now_settle]
    rfl
  have herrands : c.errands i = z.2.getLeft? := by
    rw [← hc, errands_settle, if_pos rfl]
  have hreplies : c.replies i = z.2.getRight?.toList ++ b.replies i := by
    rw [← hc, replies_settle, if_pos rfl]
    rfl
  cases ho : z.2 with
  | inl f' =>
    obtain ⟨hb, hlt⟩ := Errand.rank_step (b.site (host i)) (h f hf) hready ho
    rw [ho] at herrands hreplies
    refine ⟨?_, Or.inr ⟨by rw [hreplies]; rfl, ?_⟩⟩
    · intro g hg
      rw [herrands] at hg
      cases hg
      rw [hnow]
      exact hb
    · have hserves : b.serves i (.go i) = true := by simp [serves, hf, hready]
      rw [hserves, budget, budget, herrands, hf, hnow]
      exact Nat.add_comm 1 _ ▸ hlt
  | inr r =>
    rw [ho] at herrands hreplies
    refine ⟨?_, Or.inl ?_⟩
    · intro g hg
      rw [herrands] at hg
      cases hg
    · rw [hreplies]
      exact Nat.lt_succ_self _

omit [DecidableEq κ] in
/-- A client's next call has not taken a step yet. -/
theorem nearer_began (hnone : b.errands i = none) {d : Demand} (hd : d ≠ .sync) :
    b.Nearer i (.ask i d) (b.settle i (.inl d.errand)) := by
  have hbegun : (b.settle i (.inl d.errand)).errands i = some d.errand := by
    rw [errands_settle, if_pos rfl]
    rfl
  have hbrisk := Errand.brisk_errand hd b.now
  refine ⟨?_, Or.inr ⟨?_, ?_⟩⟩
  · intro f hf
    rw [hbegun] at hf
    cases hf
    exact hbrisk
  · rw [replies_settle, if_pos rfl]
    rfl
  · rw [budget, budget, hbegun, hnone]
    exact (Nat.zero_add _).symm ▸ hbrisk.1

theorem nearer_step (host : ι → κ) (h : b.Brisk i) {e : Event ι}
    (he : ∀ d, e = .ask i d → d ≠ .sync) : b.Nearer i e (b.step host e) := by
  cases e with
  | pass span => exact nearer_wait h rfl (Nat.le_add_right _ _) rfl rfl
  | ask j d =>
    cases hj : b.errands j with
    | some f =>
      rw [step_ask_some hj]
      exact nearer_wait h rfl (Nat.le_refl _) rfl rfl
    | none =>
      rw [step_ask_none hj]
      by_cases hij : i = j
      · subst hij
        exact nearer_began hj (he d rfl)
      · refine nearer_wait h rfl (Nat.le_refl _) ?_ ?_
        · rw [errands_settle, if_neg hij]
        · rw [replies_settle, if_neg hij]
  | go j =>
    cases hj : b.errands j with
    | none =>
      rw [step_go_none hj]
      refine nearer_wait h ?_ (Nat.le_refl _) rfl rfl
      simp only [serves, Bool.and_eq_false_imp, decide_eq_true_eq]
      rintro rfl
      rw [hj]
      rfl
    | some f =>
      rw [step_go_some hj]
      cases hready : f.ready b.now with
      | false =>
        refine nearer_wait h ?_ (Nat.le_refl _) rfl rfl
        simp only [serves, Bool.and_eq_false_imp, decide_eq_true_eq]
        rintro rfl
        rw [hj]
        exact hready
      | true =>
        rw [if_pos rfl]
        by_cases hij : i = j
        · subst hij
          exact nearer_turn h hj hready
        · refine nearer_wait h ?_ ?_ ?_ ?_
          · simp [serves, Ne.symm hij]
          · rw [now_settle]
            exact Nat.le_refl _
          · rw [errands_settle, if_neg hij]
            rfl
          · rw [replies_settle, if_neg hij]
            rfl

theorem replied_or_turns_le (h : b.Brisk i) {events : List (Event ι)}
    (he : ∀ d, .ask i d ∈ events → d ≠ .sync) :
    (b.replies i).length < ((b.run host events).replies i).length ∨
      ((b.run host events).replies i).length = (b.replies i).length ∧
        turns host i b events ≤ b.budget i := by
  induction events generalizing b with
  | nil => exact Or.inr ⟨rfl, Nat.zero_le _⟩
  | cons e rest ih =>
    obtain ⟨hb, hstep⟩ := nearer_step host h
      fun d hd => he d (hd ▸ List.mem_cons_self)
    have hrest := ih hb fun d hd => he d (List.mem_cons_of_mem _ hd)
    rcases hstep with hlt | ⟨heq, hle⟩
    · refine Or.inl (Nat.lt_of_lt_of_le hlt ?_)
      rcases hrest with hrest | ⟨hrest, -⟩
      · exact Nat.le_of_lt hrest
      · exact Nat.le_of_eq hrest.symm
    · rcases hrest with hrest | ⟨hrest, hturns⟩
      · exact Or.inl (heq ▸ hrest)
      · exact Or.inr ⟨hrest.trans heq, Nat.le_trans (Nat.add_le_add_left hturns _) hle⟩

/-- A client whose calls get more turns than one call takes has a call answered meanwhile, whatever
the other clients do or do not do. -/
theorem replied_of_turns (h : b.Brisk i) {events : List (Event ι)}
    (he : ∀ d, .ask i d ∈ events → d ≠ .sync) (hturns : Errand.patience < turns host i b events) :
    (b.replies i).length < ((b.run host events).replies i).length := by
  rcases replied_or_turns_le h he with hlt | ⟨-, hle⟩
  · exact hlt
  · exact absurd hturns (Nat.not_lt.mpr (Nat.le_trans hle (budget_le h)))

theorem Brisk.run (h : b.Brisk i) {events : List (Event ι)}
    (he : ∀ d, .ask i d ∈ events → d ≠ .sync) : (b.run host events).Brisk i := by
  induction events generalizing b with
  | nil => exact h
  | cons e rest ih =>
    obtain ⟨hb, -⟩ := nearer_step host h fun d hd => he d (hd ▸ List.mem_cons_self)
    exact ih hb fun d hd => he d (List.mem_cons_of_mem _ hd)

omit [DecidableEq ι] [DecidableEq κ] in
theorem brisk_new (now : Time) (store : MemoryStore) (managers : κ → VersionManager) (i : ι) :
    (new now store managers).Brisk i := by
  intro e he
  cases he

end Bureau

end FedTrack
