import FedTrack.Proofs.Store.Stamp
import FedTrack.Proofs.Version.Course

namespace FedTrack

/-- What others do to a store between two calls. -/
inductive Meddling
  | fault (op : Operation) (f : Fault)
  | insert (kind : Kind) (o : Object)
  | remove (kind : Kind) (name : Name)
  | call (kind : Kind) (c : Call)

def MemoryStore.meddle (s : MemoryStore) : Meddling → MemoryStore
  | .fault op f => s.failNext op f
  | .insert kind o => (s.insert kind o).1
  | .remove kind name => (s.remove kind name).1
  | .call kind c => (s.perform kind c).1

/-- A call on objects of a kind, the store that it came to, and when it was answered. -/
structure Exchange (kind : Kind) where
  store : MemoryStore
  call : Call
  time : Time

namespace Exchange

variable {kind : Kind} (x : Exchange kind)

def outcome : Outcome := (x.store.perform kind x.call).2

/-- The store right after the call. -/
def after : MemoryStore := (x.store.perform kind x.call).1

/-- The call was to create the record or to update its status, and it was forbidden. -/
def Refused (e : StoreError) : Prop :=
  (x.call.operation = .create ∨ x.call.operation = .updateStatus) ∧ x.outcome = .error e ∧
    e.isForbidden = true

end Exchange

/-- A record on its way to the store, with the calls made for it so far, the latest first. -/
structure Journey (kind : Kind) where
  now : Time
  store : MemoryStore
  write : Write
  log : List (Exchange kind)

inductive JourneyEvent
  | meddle (m : Meddling)
  /-- The write makes its next call and waits this long for the answer, or it ends its pause. What
  others do while an answer is on its way might as well come after it. -/
  | go (takes : Span)
  | pass (span : Span)

namespace Journey

variable {kind : Kind}

def start (record : Object) (s : MemoryStore) (now : Time) : Journey kind :=
  ⟨now, s, Write.start record now, []⟩

def exchange (j : Journey kind) (c : Call) (takes : Span) : Exchange kind :=
  ⟨j.store, c, j.now + takes⟩

/-- The write takes the answer to its call. -/
def take (j : Journey kind) (x : Exchange kind) : Journey kind :=
  ⟨x.time, x.after, j.write.answer x.outcome x.time, x :: j.log⟩

def pauseEnds (j : Journey kind) : Bool :=
  match j.write.stage with
  | .sleeping wake => wake ≤ j.now
  | _ => false

def step (j : Journey kind) : JourneyEvent → Journey kind
  | .meddle m => { j with store := j.store.meddle m }
  | .go takes =>
    match j.write.call? j.write.record.name with
    | some c => j.take (j.exchange c takes)
    | none => if j.pauseEnds then { j with write := j.write.wake } else j
  | .pass span => { j with now := j.now + span }

/-- A call that an update makes for its record is a step of the record's journey. -/
theorem step_update {x : Site} {w : Write} {c : Call} (hc : w.call? w.record.name = some c)
    (now : Time) (log : List (Exchange x.kind)) :
    let j := (⟨now, x.store, w, log⟩ : Journey x.kind).step (.go 0)
    UpdateStage.step now x (.writing w.record.name w) =
      (⟨x.manager, j.store⟩, UpdateStage.afterWrite x.manager w.record.name j.write) := by
  simp only [step, UpdateStage.step, hc]
  rfl

def run (j : Journey kind) (events : List JourneyEvent) : Journey kind := events.foldl step j

/-- The resource version learned last: from the record itself, from the answer to its creation, or
by reading it. -/
def learned (record : Object) : List (Exchange kind) → Option String
  | [] => record.resourceVersion
  | x :: earlier =>
    match x.call, x.outcome with
    | .create _, .ok a | .get _, .ok a => Write.versionOf a
    | _, _ => learned record earlier

/-- The status of the record was written: what was stored before has this status and the new
version, and is otherwise as it was, and so is all else in the store. -/
structure Restated (record stored written : Object) (version : Option String) (x : Exchange kind) :
    Prop where
  call : ∃ v, x.call = .updateStatus (record.setResourceVersion (some v)) ∧
    stored.metadata.resourceVersion = some v
  before : x.store.find? kind record.name = some stored
  answered : x.outcome = .ok (.stored written)
  after : ∀ k name, x.after.find? k name =
    if kind = k ∧ record.name = name then some written else x.store.find? k name
  stamped : written.resourceVersion = version ∧ version ≠ none
  types : written.types = stored.types
  metadata : written.metadata = { stored.metadata with resourceVersion := version }
  status : written.data.member? "status" = some ((record.data.member? "status").getD .null)
  fields : ∀ field, field ≠ "status" → written.data.member? field = stored.data.member? field

/-- How the last call of a write decides its result. -/
def Decides (record : Object) (began : Time) (x : Exchange kind) :
    Except WriteFailure (Option String) → Prop
  | .ok version => ∃ stored written, Restated record stored written version x
  | .error (.refused e) => x.Refused e
  | .error (.timedOut _) => began + Write.timeout < x.time + Write.interval

theorem learned_of_error {record : Object} {x : Exchange kind} {e : StoreError}
    (h : x.outcome = .error e) (earlier : List (Exchange kind)) :
    learned record (x :: earlier) = learned record earlier := by
  simp only [learned, h]
  split
  · rename_i he
    cases he
  · rename_i he
    cases he
  · rfl

theorem resourceVersion_ne_empty {o : Object} {v : String} (h : o.resourceVersion = some v) :
    v ≠ "" := by
  have hf := (Option.filter_eq_some_iff.mp h).2
  simpa using hf

theorem versionOf_ne_empty {a : Answer} {v : String} (h : Write.versionOf a = some v) : v ≠ "" := by
  unfold Write.versionOf at h
  split at h
  · exact resourceVersion_ne_empty h
  · exact resourceVersion_ne_empty h
  · cases h
  · cases h

theorem learned_ne_empty {record : Object} {log : List (Exchange kind)} {v : String}
    (h : learned record log = some v) : v ≠ "" := by
  induction log with
  | nil => exact resourceVersion_ne_empty h
  | cons x earlier ih =>
    unfold learned at h
    split at h
    · exact versionOf_ne_empty h
    · exact versionOf_ne_empty h
    · exact ih h

/-- What holds of a write at any time. -/
structure Honest (record : Object) (began : Time) (j : Journey kind) : Prop where
  carries : j.write.record = record
  deadline : j.write.poll.deadline = began + Write.timeout
  interval : j.write.poll.interval = Write.interval
  token : j.write.token = none ∨ j.write.token = learned record j.log
  updating : j.write.stage = .updating → j.write.token ≠ none
  sent : ∀ x earlier, (x :: earlier) <:+ j.log → ∀ o, x.call = .updateStatus o →
    ∃ v, learned record earlier = some v ∧ o = record.setResourceVersion (some v)
  refused : ∀ x earlier e, (x :: earlier) <:+ j.log → x.Refused e →
    j.log = x :: earlier ∧ j.write.stage = .done (.error (.refused e))
  decided : ∀ result, j.write.stage = .done result →
    ∃ x earlier, j.log = x :: earlier ∧ Decides record began x result

/-- A status update that is answered well has written the status of the record. -/
theorem restated {record : Object} {v : String} {x : Exchange kind} {a : Answer}
    (hcall : x.call = .updateStatus (record.setResourceVersion (some v))) (hv : v ≠ "")
    (ha : x.outcome = .ok a) :
    ∃ stored written, Restated record stored written (Write.versionOf a) x := by
  have hp : (x.store.perform kind (.updateStatus (record.setResourceVersion (some v)))).2 =
      .ok a := by
    rw [← hcall]
    exact ha
  obtain ⟨stored, n, hfind, hversion, rfl, hafter⟩ := MemoryStore.perform_updateStatus_ok hp
  have hsent : (record.setResourceVersion (some v)).resourceVersion = some v := by
    simp [Object.resourceVersion, Object.setResourceVersion, hv]
  have hstamp := MemoryStore.resourceVersion_stamp
    (MemoryStore.withStatus stored (record.setResourceVersion (some v))) n
  refine ⟨stored, _, {
    call := ⟨v, hcall, hversion v hsent⟩
    before := hfind
    answered := ha
    after := ?_
    stamped := ⟨rfl, by rw [Write.versionOf, hstamp]; exact Option.some_ne_none _⟩
    types := rfl
    metadata := by rw [Write.versionOf, hstamp]; rfl
    status := ?_
    fields := ?_ }⟩
  · rw [← hcall] at hafter
    exact hafter
  · simp [MemoryStore.withStatus, Object.setResourceVersion]
  · intro field hne
    simp [MemoryStore.withStatus, Object.setResourceVersion, hne.symm]

namespace Honest

variable {record : Object} {began : Time} {j : Journey kind}

theorem start (record : Object) (s : MemoryStore) (began : Time) :
    Honest record began (start record s began : Journey kind) where
  carries := rfl
  deadline := rfl
  interval := rfl
  token := Or.inr rfl
  updating := @Write.opening_updating record.resourceVersion false
  sent _ _ hs := absurd (List.suffix_nil.mp hs) (List.cons_ne_nil _ _)
  refused _ _ _ hs := absurd (List.suffix_nil.mp hs) (List.cons_ne_nil _ _)
  decided result h := absurd h (Write.opening_ne_done _ false result)

/-- While the write goes on no call for it has been forbidden. -/
theorem not_refused (h : Honest record began j) (hs : ∀ result, j.write.stage ≠ .done result)
    {x : Exchange kind} {earlier : List (Exchange kind)} {e : StoreError}
    (hx : (x :: earlier) <:+ j.log) : ¬ x.Refused e :=
  fun hr => hs _ (h.refused x earlier e hx hr).2

theorem wake (h : Honest record began j) (hp : j.pauseEnds = true) :
    Honest record began { j with write := j.write.wake } := by
  unfold pauseEnds at hp
  split at hp
  · rename_i time hs
    have hwake : j.write.wake =
        { j.write with stage := Write.opening j.write.token j.write.refresh } := by
      simp only [Write.wake, hs]
    have hnone {x : Exchange kind} {earlier : List (Exchange kind)} {e : StoreError}
        (hx : (x :: earlier) <:+ j.log) : ¬ x.Refused e :=
      h.not_refused (by simp [hs]) hx
    rw [hwake]
    exact { h with
      updating := Write.opening_updating
      refused := fun x earlier e hx hr => absurd hr (hnone hx)
      decided := fun result hd => absurd hd (Write.opening_ne_done _ _ result) }
  · cases hp

/-- Every status update carries the version learned last. -/
theorem sends (h : Honest record began j) {c : Call} {o : Object}
    (hc : j.write.call? record.name = some c) (ho : c = .updateStatus o) :
    ∃ v, learned record j.log = some v ∧ o = record.setResourceVersion (some v) := by
  subst ho
  unfold Write.call? at hc
  split at hc
  · cases hc
  · cases hc
  · rename_i hs
    have hlearned := h.token.resolve_left (h.updating hs)
    cases hv : j.write.token with
    | none => exact absurd hv (h.updating hs)
    | some v =>
      cases hc
      exact ⟨v, hlearned.symm.trans hv, by rw [h.carries, hv]⟩
  · cases hc
  · cases hc

/-- The version at hand is the one learned last, or it has been given up. -/
theorem token_answered (h : Honest record began j) {x : Exchange kind} {w : Write}
    (hc : j.write.call? record.name = some x.call)
    (ha : Write.Answered j.write x.time x.outcome w) :
    w.token = none ∨ w.token = learned record (x :: j.log) := by
  generalize ho : x.outcome = outcome at ha
  cases ha with
  | refreshed hs =>
    right
    simp only [learned, Write.calls_refreshing hs hc, ho]
  | created hs =>
    right
    simp only [learned, Write.calls_creating hs hc, ho]
  | stored hs =>
    simp only [learned, Write.calls_updating hs hc]
    exact h.token
  | refused hs hf =>
    rw [learned_of_error ho]
    exact h.token
  | again hf ht hd hi =>
    rw [learned_of_error ho]
    exact ht.elim Or.inl fun ht => ht ▸ h.token
  | timedOut hf ht late =>
    rw [learned_of_error ho]
    exact ht.elim Or.inl fun ht => ht ▸ h.token

/-- A status update always has a version to carry. -/
theorem updating_answered {x : Exchange kind} {w : Write}
    (hc : j.write.call? record.name = some x.call)
    (ha : Write.Answered j.write x.time x.outcome w) (hw : w.stage = .updating) :
    w.token ≠ none := by
  generalize ho : x.outcome = outcome at ha
  cases ha with
  | refreshed hs => exact @Write.opening_updating _ false hw
  | created hs =>
    rw [Exchange.outcome, Write.calls_creating hs hc] at ho
    obtain ⟨p, rfl, hversion⟩ := MemoryStore.perform_create_ok ho
    exact hversion
  | _ => cases hw

/-- A forbidden create or status update ends the write at once. -/
theorem refused_answered {x : Exchange kind} {w : Write}
    (hc : j.write.call? record.name = some x.call)
    (ha : Write.Answered j.write x.time x.outcome w) {e : StoreError} (hr : x.Refused e) :
    w.stage = .done (.error (.refused e)) := by
  obtain ⟨hop, ho, hf⟩ := hr
  have hgoing : ¬ (j.write.stage = .refreshing ∨ e.isForbidden = false) := by
    rintro (hs | hn)
    · rw [Write.calls_refreshing hs hc] at hop
      rcases hop with hop | hop <;> cases hop
    · rw [hf] at hn
      cases hn
  rw [ho] at ha
  cases ha with
  | refused hs hf => rfl
  | again hn ht hd hi => exact absurd hn hgoing
  | timedOut hn ht late => exact absurd hn hgoing

theorem decided_answered (h : Honest record began j) {x : Exchange kind} {w : Write}
    (hc : j.write.call? record.name = some x.call)
    (ha : Write.Answered j.write x.time x.outcome w) {result : Except WriteFailure (Option String)}
    (hw : w.stage = .done result) : Decides record began x result := by
  generalize ho : x.outcome = outcome at ha
  cases ha with
  | refreshed hs => exact absurd hw (Write.opening_ne_done _ false result)
  | created hs => cases hw
  | again hn ht hd hi => cases hw
  | stored hs =>
    cases hw
    have hcall := Write.calls_updating hs hc
    obtain ⟨v, hlearned, hsent⟩ := h.sends hc hcall
    rw [hsent] at hcall
    exact restated hcall (learned_ne_empty hlearned) ho
  | refused hs hf =>
    cases hw
    refine ⟨?_, ho, hf⟩
    rcases hs with hs | hs
    · rw [Write.calls_creating hs hc]
      exact Or.inl rfl
    · rw [Write.calls_updating hs hc]
      exact Or.inr rfl
  | timedOut hn ht late =>
    cases hw
    rw [h.deadline, h.interval] at late
    exact late

theorem take (h : Honest record began j) {x : Exchange kind}
    (hc : j.write.call? record.name = some x.call) : Honest record began (j.take x) := by
  have ha := Write.answered_answer hc x.outcome x.time
  exact {
    carries := (Write.record_answer _ _ _).trans h.carries
    deadline := ha.deadline.trans h.deadline
    interval := ha.interval.trans h.interval
    token := h.token_answered hc ha
    updating := updating_answered hc ha
    sent := by
      intro y earlier hy o ho
      rcases List.suffix_cons_iff.mp hy with he | hy
      · cases he
        exact h.sends hc ho
      · exact h.sent y earlier hy o ho
    refused := by
      intro y earlier e hy hr
      rcases List.suffix_cons_iff.mp hy with he | hy
      · cases he
        exact ⟨rfl, refused_answered hc ha hr⟩
      · exact absurd hr (h.not_refused (Write.not_done_of_call hc) hy)
    decided := fun result hd => ⟨x, j.log, rfl, h.decided_answered hc ha hd⟩ }

theorem step (h : Honest record began j) (e : JourneyEvent) :
    Honest record began (j.step e) := by
  cases e with
  | meddle m => exact { h with }
  | pass span => exact { h with }
  | go takes =>
    simp only [Journey.step]
    split
    · rename_i c hc
      rw [h.carries] at hc
      exact h.take hc
    · split
      · rename_i hp
        exact h.wake hp
      · exact h

theorem run (h : Honest record began j) (events : List JourneyEvent) :
    Honest record began (j.run events) := by
  induction events generalizing j with
  | nil => exact h
  | cons e rest ih => exact ih (h.step e)

end Honest

/-- The write protocol, for every record, every content of the store, and whatever others do and
whichever faults are queued between the calls. A write that ends well has written the status of the
record with its last call, and nothing else. Every status update carries the version learned last,
so none is unconditional. A write ends badly at once when it is refused, and otherwise only when
the next attempt would come too late. -/
theorem write_protocol (kind : Kind) (record : Object) (s : MemoryStore) (began : Time)
    (events : List JourneyEvent) :
    let j : Journey kind := (start record s began).run events
    (∀ version, j.write.stage = .done (.ok version) → ∃ x earlier stored written,
      j.log = x :: earlier ∧ Restated record stored written version x) ∧
    (∀ x earlier, (x :: earlier) <:+ j.log → ∀ o, x.call = .updateStatus o →
      ∃ v, v ≠ "" ∧ learned record earlier = some v ∧ o = record.setResourceVersion (some v)) ∧
    (∀ cause, j.write.stage = .done (.error cause) → ∃ x earlier, j.log = x :: earlier ∧
      ((∃ e, cause = .refused e ∧ x.Refused e) ∨
        (∃ p, cause = .timedOut p) ∧ began + Write.timeout < x.time + Write.interval)) ∧
    ∀ x earlier e, (x :: earlier) <:+ j.log → x.Refused e →
      j.log = x :: earlier ∧ j.write.stage = .done (.error (.refused e)) := by
  intro j
  have h : Honest record began j := (Honest.start record s began).run events
  refine ⟨?_, ?_, ?_, h.refused⟩
  · intro version hd
    obtain ⟨x, earlier, hlog, stored, written, hr⟩ := h.decided _ hd
    exact ⟨x, earlier, stored, written, hlog, hr⟩
  · intro x earlier hx o ho
    obtain ⟨v, hlearned, hsent⟩ := h.sent x earlier hx o ho
    exact ⟨v, learned_ne_empty hlearned, hlearned, hsent⟩
  · intro cause hd
    obtain ⟨x, earlier, hlog, hx⟩ := h.decided _ hd
    refine ⟨x, earlier, hlog, ?_⟩
    cases cause with
    | refused e => exact Or.inl ⟨e, rfl, hx⟩
    | timedOut p => exact Or.inr ⟨⟨p, rfl⟩, hx⟩

/-- A record that another writer creates first is read before its status is written. -/
example :
    let record : Object := ⟨none, { Metadata.empty with name := some "web" }, .object []⟩
    let j : Journey ⟨"", "v1", "Record"⟩ := (start record .empty 0).run
      [.meddle (.insert ⟨"", "v1", "Record"⟩ record), .go 0, .pass 100, .go 0, .go 0, .go 0]
    j.write.saved? = some (some "2") ∧
      j.log.map (·.call.operation) = [.updateStatus, .get, .create] := by decide +kernel

end Journey

end FedTrack
