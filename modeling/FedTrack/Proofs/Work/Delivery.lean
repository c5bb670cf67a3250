import FedTrack.Proofs.Work.Pending
import FedTrack.Work.Deliverer

namespace FedTrack

/-- A call for the delivery of a key. -/
inductive DeliveryCall (K : Type)
  | now (key : K)
  | after (key : K) (delay : Span)
  | at (key : K) (time : Time)

namespace DeliveryCall

variable {K : Type} [Key K]

def key : DeliveryCall K → K
  | .now key | .after key _ | .at key _ => key

/-- The deadline that a call made at `now` asks for. -/
def deadline (now : Time) : DeliveryCall K → Time
  | .now _ => now
  | .after _ delay => now + delay
  | .at _ time => time

def make (d : Deliverer K) (now : Time) : DeliveryCall K → Deliverer K
  | .now key => d.deliverNow now key
  | .after key delay => d.deliverAfter now key delay
  | .at key time => d.deliverAt key time

theorem make_eq (d : Deliverer K) (now : Time) (c : DeliveryCall K) :
    c.make d now = d.deliverAt c.key (c.deadline now) := by
  cases c <;> rfl

end DeliveryCall

/-- What a call asked for, and when it was made. -/
structure Asked where
  deadline : Time
  made : Time

/-- A call is due at its deadline, or at once if that has passed. -/
def Asked.due (c : Asked) (begun : Time) : Time := max c.deadline (max c.made begun)

/-- What happens at a deliverer. -/
inductive Deed (K : Type)
  | asked (key : K) (c : Asked)
  /-- The keys that were due, each with its deadline, were taken out to be handed over. -/
  | found (due : List (Time × K)) (time : Time)
  | handed (key : K) (time : Time)
  | cancelled (time : Time)

namespace Deed

variable {K : Type} [Key K]

/-- The calls for a key since it was found due last. -/
def batch (key : K) : List (Deed K) → List Asked
  | [] => []
  | .asked k c :: log => if k = key then c :: batch key log else batch key log
  | .found due _ :: log => if key ∈ due.map Prod.snd then [] else batch key log
  | .handed .. :: log | .cancelled _ :: log => batch key log

/-- The calls for a key since it was handed over last. -/
def since (key : K) : List (Deed K) → List Asked
  | [] => []
  | .asked k c :: log => if k = key then c :: since key log else since key log
  | .handed k _ :: log => if k = key then [] else since key log
  | .found .. :: log | .cancelled _ :: log => since key log

/-- The calls for a key that came while it was in hand, on its way to be handed over last. -/
def meanwhile (key : K) : List (Deed K) → List Asked
  | [] => []
  | .handed k _ :: log => if k = key then batch key log else meanwhile key log
  | .asked .. :: log | .found .. :: log | .cancelled _ :: log => meanwhile key log

/-- The earliest deadline asked for since a key was found due last. -/
def earliest (key : K) (log : List (Deed K)) : Option Time :=
  ((batch key log).map Asked.deadline).min?

/-- The keys found due, in this order, each with the time. -/
def findings : List (Deed K) → List (K × Time)
  | [] => []
  | .found due time :: log => findings log ++ due.map fun e => (e.2, time)
  | _ :: log => findings log

/-- The keys handed over, in this order, each with the time. -/
def handovers : List (Deed K) → List (K × Time)
  | [] => []
  | .handed key time :: log => handovers log ++ [(key, time)]
  | _ :: log => handovers log

/-- When a key was found due or handed over. -/
def delivery? : Deed K → Option Time
  | .found _ time | .handed _ time => some time
  | _ => none

@[simp] theorem batch_asked (key k : K) (c : Asked) (log : List (Deed K)) :
    batch key (.asked k c :: log) = if k = key then c :: batch key log else batch key log := rfl

@[simp] theorem batch_found (key : K) (due : List (Time × K)) (time : Time) (log : List (Deed K)) :
    batch key (.found due time :: log) =
      if key ∈ due.map Prod.snd then [] else batch key log := rfl

@[simp] theorem since_asked (key k : K) (c : Asked) (log : List (Deed K)) :
    since key (.asked k c :: log) = if k = key then c :: since key log else since key log := rfl

@[simp] theorem since_handed (key k : K) (time : Time) (log : List (Deed K)) :
    since key (.handed k time :: log) = if k = key then [] else since key log := rfl

@[simp] theorem meanwhile_handed (key k : K) (time : Time) (log : List (Deed K)) :
    meanwhile key (.handed k time :: log) =
      if k = key then batch key log else meanwhile key log := rfl

theorem earliest_asked (key k : K) (c : Asked) (log : List (Deed K)) :
    earliest key (.asked k c :: log) =
      if k = key then some (((earliest key log).map (min c.deadline)).getD c.deadline)
      else earliest key log := by
  unfold earliest
  rw [batch_asked]
  split
  · rw [List.map_cons, List.min?_cons]
    cases ((batch key log).map Asked.deadline).min? <;> rfl
  · rfl

theorem earliest_found (key : K) (due : List (Time × K)) (time : Time) (log : List (Deed K)) :
    earliest key (.found due time :: log) =
      if key ∈ due.map Prod.snd then none else earliest key log := by
  unfold earliest
  rw [batch_found]
  split <;> rfl

theorem mem_batch_asked {key k : K} {a c : Asked} {log : List (Deed K)}
    (h : a ∈ batch key (.asked k c :: log)) : a = c ∨ a ∈ batch key log := by
  rw [batch_asked] at h
  split at h
  · exact List.mem_cons.mp h
  · exact Or.inr h

theorem mem_batch_found {key : K} {a : Asked} {due : List (Time × K)} {time : Time}
    {log : List (Deed K)} (h : a ∈ batch key (.found due time :: log)) : a ∈ batch key log := by
  rw [batch_found] at h
  split at h
  · cases h
  · exact h

theorem exists_of_earliest {key : K} {log : List (Deed K)} {deadline : Time}
    (h : earliest key log = some deadline) :
    ∃ c ∈ batch key log, c.deadline = deadline :=
  List.mem_map.mp (List.min?_mem h)

theorem earliest_le {key : K} {log : List (Deed K)} {c : Asked} (hc : c ∈ batch key log) :
    ∃ deadline, earliest key log = some deadline ∧ deadline ≤ c.deadline := by
  have hmem : c.deadline ∈ (batch key log).map Asked.deadline := List.mem_map_of_mem hc
  cases he : earliest key log with
  | none =>
    rw [earliest, List.min?_eq_none_iff] at he
    rw [he] at hmem
    cases hmem
  | some deadline => exact ⟨deadline, rfl, (List.min?_eq_some_iff.mp he).2 _ hmem⟩

end Deed

/-- The delivery loop: not yet begun, on its way, or ended. -/
inductive DeliveryTask (K : Type)
  | absent
  | running (loop : DeliveryLoop K)
  | ended

/-- A deliverer, its loop and a clock, with all that has happened so far, the latest first. -/
structure Delivery (K : Type) [Key K] where
  now : Time
  deliverer : Deliverer K
  task : DeliveryTask K
  begun : Time
  cancelled : Bool
  log : List (Deed K)

/-- The loop waits for its cancelation, a notice and its timer at once, and of those that have
come it may take any. -/
inductive DeliveryEvent (K : Type)
  | ask (call : DeliveryCall K)
  | start
  /-- The loop goes on, and looks at a notice first. -/
  | go
  /-- The loop looks at its timer first. -/
  | fire
  | cancel
  /-- The loop takes note of its cancelation. -/
  | stop
  | pass (span : Span)

namespace Delivery

variable {K : Type} [Key K]

def new : Delivery K := ⟨0, .empty, .absent, 0, false, []⟩

def inHand (s : Delivery K) : List K :=
  match s.task with
  | .running (.handing keys) => keys
  | _ => []

/-- The key that the loop hands over in its next step. -/
def handed? (s : Delivery K) : Option K :=
  match s.task with
  | .running loop => (loop.step s.deliverer s.now).2.2
  | _ => none

/-- The loop cannot go on at this time. -/
def atRest (s : Delivery K) : Bool :=
  match s.task with
  | .running loop => !s.cancelled && !loop.ready s.deliverer s.now
  | _ => true

def alarm? (s : Delivery K) : Option Time :=
  match s.task with
  | .running loop => loop.alarm
  | _ => none

/-- What a step of the loop adds to the log. -/
def deed? (s : Delivery K) : DeliveryLoop K → DeliveryLoop K → Option K → Option (Deed K)
  | _, _, some key => some (.handed key s.now)
  | .waiting _, .handing _, none => some (.found (s.deliverer.pending.dueBy s.now) s.now)
  | _, _, none => none

def go (s : Delivery K) (loop : DeliveryLoop K) : Delivery K :=
  let (loop', d, key) := loop.step s.deliverer s.now
  { s with
    deliverer := d
    task := .running loop'
    log := (s.deed? loop loop' key).toList ++ s.log }

/-- The clock moves only while the loop is at rest, and never beyond the loop's alarm. -/
def step (s : Delivery K) : DeliveryEvent K → Delivery K
  | .ask c => { s with
      deliverer := c.make s.deliverer s.now
      log := .asked c.key ⟨c.deadline s.now, s.now⟩ :: s.log }
  | .start =>
    match s.task with
    | .absent => { s with task := .running .arming, begun := s.now }
    | _ => s
  | .go =>
    match s.task with
    | .running loop => s.go loop
    | _ => s
  | .fire =>
    match s.task with
    | .running (.waiting next) =>
      let t := { s with deliverer := ⟨s.deliverer.pending, false⟩ }.go (.waiting next)
      { t with deliverer := ⟨t.deliverer.pending, s.deliverer.notified⟩ }
    | _ => s
  | .cancel =>
    match s.task with
    | .running _ => { s with cancelled := true, log := .cancelled s.now :: s.log }
    | _ => s
  | .stop =>
    match s.task with
    | .running (.waiting _) => if s.cancelled then { s with task := .ended } else s
    | _ => s
  | .pass span =>
    if s.atRest && s.alarm?.all (s.now + span ≤ ·) then { s with now := s.now + span } else s

theorem step_ask (s : Delivery K) (c : DeliveryCall K) : s.step (.ask c) = { s with
    deliverer := ⟨(s.deliverer.pending.schedule c.key (c.deadline s.now)).1,
      s.deliverer.notified || (s.deliverer.pending.schedule c.key (c.deadline s.now)).2⟩
    log := .asked c.key ⟨c.deadline s.now, s.now⟩ :: s.log } := by
  simp only [step, DeliveryCall.make_eq]
  rfl

def run (s : Delivery K) (events : List (DeliveryEvent K)) : Delivery K := events.foldl step s

theorem handed?_eq (s : Delivery K) : s.handed? = s.inHand.head? := by
  cases ht : s.task with
  | running loop =>
    cases loop with
    | waiting next =>
      simp only [handed?, inHand, ht, DeliveryLoop.step]
      split
      · rfl
      · split <;> rfl
    | handing keys => cases keys <;> simp [handed?, inHand, ht, DeliveryLoop.step]
    | arming => simp [handed?, inHand, ht, DeliveryLoop.step]
  | _ => simp [handed?, inHand, ht]

/-- What a step of the loop can do. -/
inductive Looped (s : Delivery K) : Delivery K → Prop
  | idle : Looped s s
  | armed (ht : s.task = .running .arming) :
      Looped s { s with task := .running (.waiting s.deliverer.pending.nextDeadline) }
  | noticed {next : Option Time} (ht : s.task = .running (.waiting next)) :
      Looped s { s with deliverer := ⟨s.deliverer.pending, false⟩, task := .running .arming }
  | found {next : Option Time} (ht : s.task = .running (.waiting next)) :
      Looped s { s with
        deliverer := ⟨(s.deliverer.pending.popDue s.now).1, s.deliverer.notified⟩
        task := .running (.handing ((s.deliverer.pending.dueBy s.now).map Prod.snd))
        log := .found (s.deliverer.pending.dueBy s.now) s.now :: s.log }
  | handed {key : K} {rest : List K} (ht : s.task = .running (.handing (key :: rest))) :
      Looped s { s with task := .running (.handing rest), log := .handed key s.now :: s.log }
  | drained (ht : s.task = .running (.handing [])) :
      Looped s { s with task := .running .arming }

theorem Looped.now {s t : Delivery K} (h : Looped s t) : t.now = s.now := by
  cases h <;> rfl

theorem Looped.begun {s t : Delivery K} (h : Looped s t) : t.begun = s.begun := by
  cases h <;> rfl

theorem Looped.cancelled {s t : Delivery K} (h : Looped s t) : t.cancelled = s.cancelled := by
  cases h <;> rfl

theorem Looped.task {s t : Delivery K} (h : Looped s t) :
    t.task = s.task ∨ ∃ loop, t.task = .running loop := by
  cases h with
  | idle => exact Or.inl rfl
  | _ => exact Or.inr ⟨_, rfl⟩

theorem go_waiting {s : Delivery K} {next : Option Time} (ht : s.task = .running (.waiting next))
    (hn : s.deliverer.notified = false) : s.go (.waiting next) = s ∧ next.any (· ≤ s.now) = false ∨
      next.any (· ≤ s.now) = true ∧ s.go (.waiting next) = { s with
        deliverer := ⟨(s.deliverer.pending.popDue s.now).1, false⟩
        task := .running (.handing ((s.deliverer.pending.dueBy s.now).map Prod.snd))
        log := .found (s.deliverer.pending.dueBy s.now) s.now :: s.log } := by
  obtain ⟨now, ⟨pending, notified⟩, task, begun, cancelled, log⟩ := s
  dsimp only at ht hn
  subst ht
  subst hn
  by_cases hd : next.any (· ≤ now) = true
  · refine Or.inr ⟨hd, ?_⟩
    simp [go, DeliveryLoop.step, hd, deed?, Pending.popDue_snd]
  · refine Or.inl ⟨?_, Bool.eq_false_iff.mpr hd⟩
    simp [go, DeliveryLoop.step, hd, deed?]

theorem looped_go {s : Delivery K} {loop : DeliveryLoop K} (ht : s.task = .running loop) :
    Looped s (s.go loop) := by
  cases loop with
  | arming => exact .armed ht
  | waiting next =>
    cases hn : s.deliverer.notified with
    | true =>
      have hgo : s.go (.waiting next) =
          { s with deliverer := ⟨s.deliverer.pending, false⟩, task := .running .arming } := by
        simp [go, DeliveryLoop.step, hn, deed?]
      rw [hgo]
      exact .noticed ht
    | false =>
      rcases go_waiting ht hn with ⟨hgo, -⟩ | ⟨-, hgo⟩
      · rw [hgo]
        exact .idle
      · rw [hgo, ← hn]
        exact .found ht
  | handing keys =>
    cases keys with
    | nil => exact .drained ht
    | cons key rest => exact .handed ht

theorem looped_step_go (s : Delivery K) : Looped s (s.step .go) := by
  unfold step
  cases ht : s.task with
  | absent => exact .idle
  | running loop => exact looped_go ht
  | ended => exact .idle

theorem looped_step_fire (s : Delivery K) : Looped s (s.step .fire) := by
  unfold step
  dsimp only
  split
  · rename_i next ht
    rcases go_waiting (s := { s with deliverer := ⟨s.deliverer.pending, false⟩ }) ht rfl with
      ⟨hgo, -⟩ | ⟨-, hgo⟩
    · rw [hgo]
      exact .idle
    · rw [hgo]
      exact .found ht
  · exact .idle

end Delivery

end FedTrack
