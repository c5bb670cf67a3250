import FedTrack.Proofs.Store.Traffic
import FedTrack.Store.Flight

namespace FedTrack

namespace MemoryStore

/-- The faults queued for one operation, the oldest first. -/
def faultsFor (s : MemoryStore) (op : Operation) : List Fault :=
  (s.faults.filter (·.1 = op)).map (·.2)

/-- Either no fault is queued for an operation, or one is the oldest of them. -/
theorem faults_split (op : Operation) (l : List (Operation × Fault)) :
    (∀ e ∈ l, e.1 ≠ op) ∨
      ∃ before f after, l = before ++ (op, f) :: after ∧ ∀ e ∈ before, e.1 ≠ op := by
  cases h : l.find? (·.1 = op) with
  | none => exact Or.inl (by simpa using h)
  | some e =>
    obtain ⟨he, before, after, hl, hbefore⟩ := List.find?_eq_some_iff_append.mp h
    obtain ⟨o, f⟩ := e
    have ho : o = op := by simpa using he
    subst ho
    exact Or.inr ⟨before, f, after, hl, by simpa using hbefore⟩

theorem takeFault_none {op : Operation} {l : List (Operation × Fault)}
    (h : ∀ e ∈ l, e.1 ≠ op) : takeFault op l = none := by
  induction l with
  | nil => rfl
  | cons e rest ih =>
    rw [takeFault, if_neg (h e List.mem_cons_self), ih fun e he => h e (List.mem_cons_of_mem _ he)]
    rfl

theorem takeFault_oldest {op : Operation} {before : List (Operation × Fault)}
    (h : ∀ e ∈ before, e.1 ≠ op) (f : Fault) (after : List (Operation × Fault)) :
    takeFault op (before ++ (op, f) :: after) = some (f, before ++ after) := by
  induction before with
  | nil => rw [List.nil_append, takeFault, if_pos rfl, List.nil_append]
  | cons e rest ih =>
    rw [List.cons_append, takeFault, if_neg (h e List.mem_cons_self),
      ih fun e he => h e (List.mem_cons_of_mem _ he)]
    rfl

variable {s : MemoryStore} {op : Operation}

theorem enter_faultless (h : ∀ e ∈ s.faults, e.1 ≠ op) :
    s.enter op = ({ s with attempts := s.attempts.bump op }, none) := by
  simp only [enter, takeFault_none h]

theorem enter_oldest {before after : List (Operation × Fault)} {f : Fault}
    (hl : s.faults = before ++ (op, f) :: after) (h : ∀ e ∈ before, e.1 ≠ op) :
    s.enter op = ({ s with attempts := s.attempts.bump op, faults := before ++ after },
      some (f.toError op)) := by
  simp only [enter, hl, takeFault_oldest h]

theorem faultsFor_nil (h : ∀ e ∈ s.faults, e.1 ≠ op) : s.faultsFor op = [] := by
  simpa [faultsFor] using h

/-- A call meets the oldest fault of its operation. -/
theorem enter_met (s : MemoryStore) (op : Operation) :
    (s.enter op).2 = (s.faultsFor op).head?.map (·.toError op) := by
  rcases faults_split op s.faults with h | ⟨before, f, after, hl, h⟩
  · rw [enter_faultless h, faultsFor_nil h]
    rfl
  · have hbefore : before.filter (·.1 = op) = [] := by simpa using h
    rw [enter_oldest hl h, faultsFor, hl, List.filter_append, hbefore]
    simp

/-- It takes this fault from the queue, and leaves those of the other operations. -/
theorem faultsFor_enter (s : MemoryStore) (o op : Operation) :
    (s.enter o).1.faultsFor op = if o = op then (s.faultsFor op).tail else s.faultsFor op := by
  rcases faults_split o s.faults with h | ⟨before, f, after, hl, h⟩
  · rw [enter_faultless h]
    split
    · rename_i ho
      subst ho
      rw [faultsFor_nil h]
      exact faultsFor_nil h
    · rfl
  · rw [enter_oldest hl h]
    simp only [faultsFor, hl, List.filter_append, List.map_append]
    split
    · rename_i ho
      subst ho
      have hbefore : before.filter (·.1 = o) = [] := by simpa using h
      simp [hbefore]
    · rename_i ho
      simp [ho]

/-- What is met is no longer queued. -/
theorem enter_append (s : MemoryStore) (op : Operation) :
    (s.enter op).2.toList ++ (s.faultsFor op).tail.map (·.toError op) =
      (s.faultsFor op).map (·.toError op) := by
  rw [enter_met]
  cases s.faultsFor op <;> rfl

theorem faultsFor_failNext (s : MemoryStore) (o op : Operation) (f : Fault) :
    (s.failNext o f).faultsFor op = if o = op then s.faultsFor op ++ [f] else s.faultsFor op := by
  simp only [faultsFor, failNext, List.filter_append, List.map_append]
  split
  · rename_i h
    simp [h]
  · rename_i h
    simp [h]

/-- One operation is counted once more, and no other. -/
structure Counted (op : Operation) (before after : Counts) : Prop where
  own : after op = before op + 1
  others : ∀ o, o ≠ op → after o = before o

theorem counted_bump (op : Operation) (c : Counts) : Counted op c (c.bump op) :=
  ⟨if_pos rfl, fun _ ho => if_neg ho⟩

/-- What a call that has been let through leaves behind. -/
structure Carried (s : MemoryStore) (kind : Kind) (call : Call) (z : MemoryStore × Outcome) :
    Prop where
  failed : ∀ e, z.2 = .error e → z.1 = s
  attempts : z.1.attempts = s.attempts
  successes : ∀ a, z.2 = .ok a → Counted call.operation s.successes z.1.successes
  faults : z.1.faults = s.faults
  elsewhere : ∀ k n, (k = kind → call.target? ≠ some n) → z.1.find? k n = s.find? k n

/-- What a whole call leaves behind. -/
structure Served (s : MemoryStore) (kind : Kind) (call : Call) (z : MemoryStore × Outcome) :
    Prop where
  /-- No more than the count of attempts and the queue of faults. -/
  failed : ∀ e, z.2 = .error e → z.1 = { s with attempts := z.1.attempts, faults := z.1.faults }
  attempts : Counted call.operation s.attempts z.1.attempts
  successes : ∀ a, z.2 = .ok a → Counted call.operation s.successes z.1.successes
  elsewhere : ∀ k n, (k = kind → call.target? ≠ some n) → z.1.find? k n = s.find? k n
  oldest : ∀ before f after, s.faults = before ++ (call.operation, f) :: after →
    (∀ e ∈ before, e.1 ≠ call.operation) →
    z.2 = .error (f.toError call.operation) ∧ z.1.faults = before ++ after
  faultless : (∀ e ∈ s.faults, e.1 ≠ call.operation) → z.1.faults = s.faults

@[simp] theorem attempts_stampNew (s : MemoryStore) (o : Object) :
    (s.stampNew o).1.attempts = s.attempts := by
  unfold stampNew stampUid stampVersion
  dsimp only
  split <;> rfl

@[simp] theorem successes_stampNew (s : MemoryStore) (o : Object) :
    (s.stampNew o).1.successes = s.successes := by
  unfold stampNew stampUid stampVersion
  dsimp only
  split <;> rfl

/-- A call succeeds: it is counted, and it stores at most one object, the one that it names. -/
def Succeeds (s : MemoryStore) (kind : Kind) (call : Call) (t : MemoryStore) : Prop :=
  t.attempts = s.attempts ∧ Counted call.operation s.successes t.successes ∧ t.faults = s.faults ∧
    (t.objects = s.objects ∨
      ∃ name p, call.target? = some name ∧ t.objects = s.objects.insert (kind, name) p)

theorem succeeds_restate {s : MemoryStore} {kind : Kind} {name : Name} {call : Call} (o : Object)
    (h : call.target? = some name) :
    Succeeds s kind call (s.restate kind name call.operation o).1 :=
  ⟨rfl, counted_bump call.operation s.successes, rfl, Or.inr ⟨name, _, h, rfl⟩⟩

/-- A call that takes effect fails and changes nothing, or it succeeds. -/
theorem commit_cases (s : MemoryStore) (kind : Kind) (call : Call) :
    (∃ e, s.commit kind call = (s, .error e)) ∨
      ∃ t a, s.commit kind call = (t, .ok a) ∧ Succeeds s kind call t := by
  cases call with
  | list scope => exact Or.inr ⟨_, _, rfl, rfl, counted_bump .list s.successes, rfl, Or.inl rfl⟩
  | get name => exact Or.inr ⟨_, _, rfl, rfl, counted_bump .get s.successes, rfl, Or.inl rfl⟩
  | create o =>
    unfold commit
    dsimp only
    split
    · exact Or.inl ⟨_, rfl⟩
    · have ho := objects_stampNew s { o with data := o.data.dropMember "status" }
      refine Or.inr ⟨_, _, rfl, attempts_stampNew s _, ?_, faults_stampNew s _,
        Or.inr ⟨o.name, _, rfl, congrArg (Table.insert · (kind, o.name) _) ho⟩⟩
      have hs := successes_stampNew s { o with data := o.data.dropMember "status" }
      exact (congrArg (Counted .create · _) hs).mp (counted_bump .create _)
  | update o =>
    unfold commit
    dsimp only
    split
    · exact Or.inl ⟨_, rfl⟩
    · split
      · exact Or.inl ⟨_, rfl⟩
      · exact Or.inr ⟨_, _, rfl, succeeds_restate _ rfl⟩
  | updateStatus o =>
    unfold commit
    dsimp only
    split
    · exact Or.inl ⟨_, rfl⟩
    · split
      · exact Or.inl ⟨_, rfl⟩
      · exact Or.inr ⟨_, _, rfl, succeeds_restate _ rfl⟩
  | patchMerge name patch =>
    unfold commit
    dsimp only
    split
    · exact Or.inl ⟨_, rfl⟩
    · exact Or.inr ⟨_, _, rfl, succeeds_restate _ rfl⟩

theorem carried_commit (s : MemoryStore) (kind : Kind) (call : Call) :
    Carried s kind call (s.commit kind call) := by
  rcases commit_cases s kind call with ⟨e, hc⟩ | ⟨t, a, hc, hattempts, hsuccesses, hfaults, ho⟩
  · rw [hc]
    refine ⟨fun _ _ => rfl, rfl, ?_, rfl, fun _ _ _ => rfl⟩
    intro a ha
    cases ha
  · rw [hc]
    refine ⟨?_, hattempts, fun _ _ => hsuccesses, hfaults, ?_⟩
    · intro e he
      cases he
    · intro k n hne
      rcases ho with ho | ⟨name, p, htarget, ho⟩
      · exact find?_congr ho k n
      · rw [find?_of_insert ho, if_neg]
        rintro ⟨rfl, rfl⟩
        exact hne rfl htarget

theorem perform_oldest {before after : List (Operation × Fault)} {f : Fault} (kind : Kind)
    {call : Call} (hl : s.faults = before ++ (call.operation, f) :: after)
    (h : ∀ e ∈ before, e.1 ≠ call.operation) :
    s.perform kind call =
      ({ s with attempts := s.attempts.bump call.operation, faults := before ++ after },
        .error (f.toError call.operation)) := by
  simp only [perform, enter_oldest hl h]

theorem perform_through (kind : Kind) {call : Call} (h : ∀ e ∈ s.faults, e.1 ≠ call.operation) :
    s.perform kind call =
      ({ s with attempts := s.attempts.bump call.operation }).commit kind call := by
  simp only [perform, enter_faultless h]

theorem served_perform (s : MemoryStore) (kind : Kind) (call : Call) :
    Served s kind call (s.perform kind call) := by
  rcases faults_split call.operation s.faults with h | ⟨before, f, after, hl, h⟩
  · have hc := carried_commit { s with attempts := s.attempts.bump call.operation } kind call
    rw [← perform_through kind h] at hc
    refine ⟨?_, ?_, hc.successes, hc.elsewhere, ?_, fun _ => hc.faults⟩
    · intro e he
      rw [hc.failed e he]
    · rw [hc.attempts]
      exact counted_bump call.operation s.attempts
    · intro before f after hl
      exact absurd rfl (h (call.operation, f) (by simp [hl]))
  · rw [perform_oldest kind hl h]
    refine ⟨fun _ _ => rfl, counted_bump call.operation s.attempts, ?_, fun _ _ _ => rfl, ?_, ?_⟩
    · intro a ha
      cases ha
    · intro before' f' after' hl' h'
      have hone := (enter_oldest hl h).symm.trans (enter_oldest hl' h')
      simpa [and_comm] using hone
    · intro hnone
      exact absurd rfl (hnone (call.operation, f) (by simp [hl]))

/-- A call that waits at a gate has met no fault, and has changed no more than the count of
attempts. -/
theorem launch_waits {kind : Kind} {call : Call} {f : Flight}
    (h : (s.launch kind call).2 = .inr f) :
    (∀ e ∈ s.faults, e.1 ≠ call.operation) ∧ f.kind = kind ∧ f.call = call ∧
      (s.launch kind call).1 = { s with attempts := (s.launch kind call).1.attempts } ∧
      Counted call.operation s.attempts (s.launch kind call).1.attempts := by
  rcases faults_split call.operation s.faults with hnone | ⟨before, f', after, hl, hfirst⟩
  · simp only [launch, enter_faultless hnone] at h ⊢
    split at h
    · split at h
      · cases h
      · rename_i hclosed
        cases h
        rw [if_neg hclosed]
        exact ⟨hnone, rfl, rfl, rfl, counted_bump call.operation s.attempts⟩
    · cases h
  · simp only [launch, enter_oldest hl hfirst] at h
    cases h

/-- A call that is answered at once is a whole call. -/
theorem launch_answers {kind : Kind} {call : Call} {outcome : Outcome}
    (h : (s.launch kind call).2 = .inl outcome) :
    s.perform kind call = ((s.launch kind call).1, outcome) := by
  cases he : s.enter call.operation with
  | mk t e? =>
    cases e? with
    | some e =>
      simp only [launch, he] at h ⊢
      simp only [perform, he]
      cases h
      rfl
    | none =>
      simp only [launch, he] at h ⊢
      simp only [perform, he]
      split at h
      · split at h
        · rename_i hopen
          cases h
          rw [if_pos hopen]
        · cases h
      · cases h
        rfl

end MemoryStore

/-- What comes to the faults of one operation. -/
inductive FaultEvent
  | queued (f : Fault)
  /-- A call arrives. -/
  | called

/-- What a queue answers to the calls that come to it. -/
def FaultEvent.answers : List Fault → List FaultEvent → List (Option Fault)
  | _, [] => []
  | queue, .queued f :: rest => answers (queue ++ [f]) rest
  | queue, .called :: rest => queue.head? :: answers queue.tail rest

def FaultEvent.fault? : FaultEvent → Option Fault
  | .queued f => some f
  | .called => none

def TrafficEvent.faultEvent? (op : Operation) : TrafficEvent → Option FaultEvent
  | .arrive _ call => if call.operation = op then some .called else none
  | .failNext o f => if o = op then some (.queued f) else none
  | _ => none

namespace Traffic

open MemoryStore

/-- What the calls of an operation meet as they arrive. -/
def met (op : Operation) : Traffic → List TrafficEvent → List (Option StoreError)
  | _, [] => []
  | s, e :: rest =>
    match e.faultEvent? op with
    | some .called => (s.store.enter op).2 :: met op (s.step e) rest
    | _ => met op (s.step e) rest

theorem faultsFor_step (s : Traffic) (op : Operation) (e : TrafficEvent) :
    (s.step e).store.faultsFor op =
      match e.faultEvent? op with
      | some (.queued f) => s.store.faultsFor op ++ [f]
      | some .called => (s.store.faultsFor op).tail
      | none => s.store.faultsFor op := by
  cases e with
  | arrive kind call =>
    have hs : (s.step (.arrive kind call)).store = (s.store.enter call.operation).1 := by
      unfold step
      dsimp only
      split
      · rename_i h
        rw [h]
      · rename_i h
        rw [h]
    rw [hs, faultsFor_enter]
    simp only [TrafficEvent.faultEvent?]
    split <;> rfl
  | land kind call =>
    simp only [step, TrafficEvent.faultEvent?]
    split
    · simp only [faultsFor, faults_commit]
    · rfl
  | stamp kind o => simp only [step, faultsFor, faults_stampNew, TrafficEvent.faultEvent?]
  | failNext o f =>
    simp only [step, faultsFor_failNext, TrafficEvent.faultEvent?]
    by_cases h : o = op
    · simp only [if_pos h]
    · simp only [if_neg h]
  | place kind o =>
    simp only [step, TrafficEvent.faultEvent?]
    split <;> rfl
  | remove kind name => rfl
  | hold o name => rfl
  | openGate gate => rfl

/-- Whatever else goes on, the faults of an operation stand in a queue of their own. -/
theorem met_eq (s : Traffic) (op : Operation) (events : List TrafficEvent) :
    s.met op events =
      (FaultEvent.answers (s.store.faultsFor op) (events.filterMap (·.faultEvent? op))).map
        (Option.map (·.toError op)) := by
  induction events generalizing s with
  | nil => rfl
  | cons e rest ih =>
    have hstep := faultsFor_step s op e
    rw [met, ih, List.filterMap_cons]
    cases he : e.faultEvent? op with
    | none => simp only [he] at hstep ⊢; rw [hstep]
    | some q =>
      cases q with
      | queued f => simp only [he] at hstep ⊢; rw [hstep]; rfl
      | called => simp only [he] at hstep ⊢; rw [hstep, enter_met]; rfl

/-- What the calls of an operation have met and what is still queued for it make up what has been
queued for it. -/
theorem met_append (s : Traffic) (op : Operation) (events : List TrafficEvent) :
    (s.met op events).filterMap id ++ ((s.run events).store.faultsFor op).map (·.toError op) =
      (s.store.faultsFor op ++
        (events.filterMap (·.faultEvent? op)).filterMap (·.fault?)).map (·.toError op) := by
  induction events generalizing s with
  | nil => simp [met, run]
  | cons e rest ih =>
    have hstep := faultsFor_step s op e
    have hrun : s.run (e :: rest) = (s.step e).run rest := rfl
    rw [met, hrun, List.filterMap_cons]
    cases he : e.faultEvent? op with
    | none =>
      simp only [he] at hstep ⊢
      rw [ih, hstep]
    | some q =>
      cases q with
      | queued f =>
        simp only [he] at hstep ⊢
        rw [ih, hstep]
        simp [FaultEvent.fault?]
      | called =>
        simp only [he] at hstep ⊢
        have hcons : ((s.store.enter op).2 :: met op (s.step e) rest).filterMap id =
            (s.store.enter op).2.toList ++ (met op (s.step e) rest).filterMap id := by
          cases (s.store.enter op).2 <;> rfl
        rw [hcons, List.append_assoc, ih, hstep, List.map_append, ← List.append_assoc,
          enter_append, ← List.map_append]
        rfl

/-- A call that fails changes no object and no version, and is counted as an attempt only. A call
that succeeds is counted twice, and changes at most the object that it names. Calls of an operation
meet the faults that are queued for it, each of them once and in their order, whatever other calls
do between the arrival of a call and its effect. -/
theorem failed_call_changes_nothing :
    (∀ (s : MemoryStore) (kind : Kind) (call : Call), Served s kind call (s.perform kind call)) ∧
    (∀ (s : MemoryStore) (kind : Kind) (call : Call) (outcome : Outcome),
      (s.launch kind call).2 = .inl outcome →
        s.perform kind call = ((s.launch kind call).1, outcome)) ∧
    (∀ (s : MemoryStore) (kind : Kind) (call : Call) (f : Flight),
      (s.launch kind call).2 = .inr f →
        (∀ e ∈ s.faults, e.1 ≠ call.operation) ∧ f.kind = kind ∧ f.call = call ∧
        (s.launch kind call).1 = { s with attempts := (s.launch kind call).1.attempts } ∧
        Counted call.operation s.attempts (s.launch kind call).1.attempts) ∧
    (∀ (s : MemoryStore) (f : Flight), Carried s f.kind f.call (s.land f)) ∧
    ∀ (op : Operation) (events : List TrafficEvent),
      let due := events.filterMap (·.faultEvent? op)
      new.met op events = (FaultEvent.answers [] due).map (Option.map (·.toError op)) ∧
      (new.met op events).filterMap id ++ ((new.run events).store.faultsFor op).map (·.toError op) =
        (due.filterMap (·.fault?)).map (·.toError op) := by
  refine ⟨served_perform, fun _ _ _ _ => launch_answers, fun _ _ _ _ => launch_waits,
    fun s f => carried_commit s f.kind f.call, ?_⟩
  intro op events due
  exact ⟨met_eq new op events, met_append new op events⟩

/-- Faults of other operations, queued before or between, do not matter. The call that met a fault
is counted as an attempt, and the one after it as a success too. -/
theorem failed_call_changes_nothing_sample :
    let kind : Kind := ⟨"apps", "v1", "Deployment"⟩
    let get := Call.get ⟨"", "a"⟩
    let s := (MemoryStore.empty.failNext .list .conflict).failNext .get .notFound
    let t := (s.perform kind get).1
    let u := (t.perform kind get).1
    let events : List TrafficEvent := [.failNext .list .conflict, .failNext .get .notFound,
      .arrive kind get, .failNext .create .forbidden, .failNext .get .unavailable,
      .arrive kind (.list none), .arrive kind get, .arrive kind get]
    s.faults = [(.list, .conflict)] ++ (.get, .notFound) :: [] ∧
      (s.perform kind get).2 = .error (.notFound "injected fault on Get") ∧
      t.faults = [(.list, .conflict)] ∧
      (t.attempts .get = 1 ∧ t.successes .get = 0 ∧ t.attempts .list = 0) ∧
      (t.perform kind get).2 = .ok (.found none) ∧
      (u.attempts .get = 2 ∧ u.successes .get = 1 ∧ u.successes .list = 0) ∧
      new.met .get events =
        [some (.notFound "injected fault on Get"), some (.invariant "injected fault on Get"),
          none] := by
  intro kind get s t u events
  obtain ⟨hserved, -, -, -, hmet⟩ := failed_call_changes_nothing
  have hfirst := hserved s kind get
  have hfault := hfirst.oldest [(.list, .conflict)] .notFound [] rfl (by decide)
  have hkept : t.successes = fun _ => 0 :=
    congrArg MemoryStore.successes (hfirst.failed _ hfault.1)
  have hsecond := hserved t kind get
  have hfound : (t.perform kind get).2 = .ok (.found none) := rfl
  have hcounted := hsecond.successes _ hfound
  have hdue : FaultEvent.answers [] (events.filterMap (·.faultEvent? .get)) =
      [some .notFound, some .unavailable, none] := by decide +kernel
  refine ⟨rfl, hfault.1, hfault.2, ⟨hfirst.attempts.own, by rw [hkept],
    hfirst.attempts.others .list (by decide)⟩, hfound, ⟨?_, ?_, ?_⟩, ?_⟩
  · exact hsecond.attempts.own.trans (congrArg (· + 1) hfirst.attempts.own)
  · exact hcounted.own.trans (congrArg (· .get + 1) hkept)
  · exact (hcounted.others .list (by decide)).trans (congrArg (· .list) hkept)
  · rw [(hmet .get events).1, hdue]
    rfl

end Traffic

end FedTrack
