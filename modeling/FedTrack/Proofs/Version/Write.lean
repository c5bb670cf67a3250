import FedTrack.Version.Write

namespace FedTrack.Write

/-- The version that the record was stored with, once it is. -/
def saved? (w : Write) : Option (Option String) :=
  match w.stage with
  | .done (.ok version) => some version
  | _ => none

@[simp] theorem record_retry (w : Write) (now : Time) : (w.retry now).record = w.record := by
  unfold retry
  split <;> rfl

@[simp] theorem saved?_retry (w : Write) (now : Time) : (w.retry now).saved? = none := by
  unfold retry
  split <;> rfl

@[simp] theorem record_retryUnlessForbidden (w : Write) (e : StoreError) (now : Time) :
    (w.retryUnlessForbidden e now).record = w.record := by
  unfold retryUnlessForbidden
  split
  · rfl
  · exact w.record_retry now

@[simp] theorem saved?_retryUnlessForbidden (w : Write) (e : StoreError) (now : Time) :
    (w.retryUnlessForbidden e now).saved? = none := by
  unfold retryUnlessForbidden
  split
  · rfl
  · exact w.saved?_retry now

@[simp] theorem record_wake (w : Write) : w.wake.record = w.record := by
  unfold wake
  split <;> rfl

theorem record_answer (w : Write) (outcome : Outcome) (now : Time) :
    (w.answer outcome now).record = w.record := by
  unfold answer
  split
  · split
    · rfl
    · exact w.record_retry now
  · split
    · rfl
    · split
      · rw [record_retry]
      · exact w.record_retryUnlessForbidden _ now
  · split
    · rfl
    · split
      · rw [record_retry]
      · split
        · rw [record_retry]
        · exact w.record_retryUnlessForbidden _ now
  · rfl
  · rfl

/-- Only the answer to a status update can end a write well. -/
theorem saved?_answer_error (w : Write) (e : StoreError) (now : Time) (h : w.saved? = none) :
    (w.answer (.error e) now).saved? = none := by
  unfold answer
  split
  · exact w.saved?_retry now
  · dsimp only
    split
    · rw [saved?_retry]
    · exact w.saved?_retryUnlessForbidden e now
  · dsimp only
    split
    · rw [saved?_retry]
    · split
      · rw [saved?_retry]
      · exact w.saved?_retryUnlessForbidden e now
  · exact h
  · exact h

section
variable {w : Write} {name : Name} {c : Call}

theorem calls_refreshing (hs : w.stage = .refreshing) (hc : w.call? name = some c) :
    c = .get name := by
  simp only [call?, hs, Option.some.injEq] at hc
  exact hc.symm

theorem calls_creating (hs : w.stage = .creating) (hc : w.call? name = some c) :
    c = .create (w.record.setResourceVersion none) := by
  simp only [call?, hs, Option.some.injEq] at hc
  exact hc.symm

theorem calls_updating (hs : w.stage = .updating) (hc : w.call? name = some c) :
    c = .updateStatus (w.record.setResourceVersion w.token) := by
  simp only [call?, hs, Option.some.injEq] at hc
  exact hc.symm

theorem not_done_of_call (hc : w.call? name = some c) (result : Except WriteFailure (Option String)) :
    w.stage ≠ .done result := by
  intro hs
  simp only [call?, hs] at hc
  cases hc

end

/-- Without a version the record is created first. -/
theorem opening_updating {token : Option String} {refresh : Bool}
    (h : opening token refresh = .updating) : token ≠ none := by
  unfold opening at h
  split at h
  · cases h
  · cases token with
    | none => cases h
    | some v => exact nofun

theorem opening_ne_done (token : Option String) (refresh : Bool)
    (result : Except WriteFailure (Option String)) : opening token refresh ≠ .done result := by
  unfold opening
  split
  · exact nofun
  · cases token with
    | none => exact nofun
    | some v => exact nofun

theorem stage_direction (token : Option String) :
    direction token = .creating ∨ direction token = .updating := by
  cases token with
  | none => exact Or.inl rfl
  | some v => exact Or.inr rfl

/-- What an answer can do to a write that has made a call. -/
inductive Answered (w : Write) (now : Time) : Outcome → Write → Prop
  | refreshed {a : Answer} (hs : w.stage = .refreshing) : Answered w now (.ok a)
      { w with token := versionOf a, refresh := false, stage := direction (versionOf a) }
  | created {a : Answer} (hs : w.stage = .creating) : Answered w now (.ok a)
      { w with token := versionOf a, refresh := false, stage := .updating }
  | stored {a : Answer} (hs : w.stage = .updating) :
      Answered w now (.ok a) { w with stage := .done (.ok (versionOf a)) }
  | refused {e : StoreError} (hs : w.stage = .creating ∨ w.stage = .updating)
      (hf : e.isForbidden = true) :
      Answered w now (.error e) { w with stage := .done (.error (.refused e)) }
  | again {e : StoreError} {token : Option String} {refresh : Bool} {poll : Poll} {wake : Time}
      (hf : w.stage = .refreshing ∨ e.isForbidden = false) (ht : token = none ∨ token = w.token)
      (hd : poll.deadline = w.poll.deadline) (hi : poll.interval = w.poll.interval) :
      Answered w now (.error e)
        { w with token := token, refresh := refresh, poll := poll, stage := .sleeping wake }
  | timedOut {e : StoreError} {token : Option String} {refresh : Bool}
      (hf : w.stage = .refreshing ∨ e.isForbidden = false) (ht : token = none ∨ token = w.token)
      (late : w.poll.deadline < now + w.poll.interval) :
      Answered w now (.error e)
        { w with token := token, refresh := refresh, stage := .done (.error (.timedOut w.poll)) }

namespace Answered

variable {w w' : Write} {now : Time} {outcome : Outcome}

theorem deadline (h : Answered w now outcome w') : w'.poll.deadline = w.poll.deadline := by
  cases h with
  | again _ _ hd _ => exact hd
  | _ => rfl

theorem interval (h : Answered w now outcome w') : w'.poll.interval = w.poll.interval := by
  cases h with
  | again _ _ _ hi => exact hi
  | _ => rfl

end Answered

theorem answered_retry {w : Write} {e : StoreError} {token : Option String} {refresh : Bool}
    (now : Time) (hf : w.stage = .refreshing ∨ e.isForbidden = false)
    (ht : token = none ∨ token = w.token) :
    Answered w now (.error e) ({ w with token := token, refresh := refresh }.retry now) := by
  unfold retry Poll.retry
  by_cases late : w.poll.deadline < now + w.poll.interval
  · simp only [late, if_true]
    exact .timedOut hf ht late
  · simp only [late, if_false]
    exact .again hf ht rfl rfl

theorem answered_retryUnlessForbidden {w : Write} (e : StoreError) (now : Time)
    (hs : w.stage = .creating ∨ w.stage = .updating) :
    Answered w now (.error e) (w.retryUnlessForbidden e now) := by
  unfold retryUnlessForbidden
  split
  · rename_i hf
    exact .refused hs hf
  · rename_i hf
    exact answered_retry now (Or.inr (Bool.eq_false_iff.mpr hf)) (Or.inr rfl)

theorem answered_answer {w : Write} {name : Name} {c : Call} (hc : w.call? name = some c)
    (outcome : Outcome) (now : Time) : Answered w now outcome (w.answer outcome now) := by
  cases hs : w.stage with
  | refreshing =>
    cases outcome with
    | ok a =>
      simp only [answer, hs]
      exact .refreshed hs
    | error e =>
      simp only [answer, hs]
      exact answered_retry now (Or.inl hs) (Or.inr rfl)
  | creating =>
    cases outcome with
    | ok a =>
      simp only [answer, hs]
      exact .created hs
    | error e =>
      simp only [answer, hs]
      split
      · have hf : e.isForbidden = false := by cases e <;> first | rfl | contradiction
        exact answered_retry now (Or.inr hf) (Or.inl rfl)
      · exact answered_retryUnlessForbidden e now (Or.inl hs)
  | updating =>
    cases outcome with
    | ok a =>
      simp only [answer, hs]
      exact .stored hs
    | error e =>
      simp only [answer, hs]
      split
      · have hf : e.isForbidden = false := by cases e <;> first | rfl | contradiction
        exact answered_retry now (Or.inr hf) (Or.inr rfl)
      · split
        · have hf : e.isForbidden = false := by cases e <;> first | rfl | contradiction
          exact answered_retry now (Or.inr hf) (Or.inl rfl)
        · exact answered_retryUnlessForbidden e now (Or.inr hs)
  | sleeping wake => simp [call?, hs] at hc
  | done result => simp [call?, hs] at hc

end FedTrack.Write
