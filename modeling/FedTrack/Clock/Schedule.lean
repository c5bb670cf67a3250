import FedTrack.Poll

namespace FedTrack

/-- How tasks of type `T` act on a world of type `W`: when a task can go on, when the clock
alone lets it go on, and what one step of it does. A step may start further tasks. -/
structure Rules (W T : Type) where
  ready : Time → W → T → Bool
  alarm : T → Option Time
  step : Time → W → T → W × List T × Option T

structure Waiting (T : Type) where
  id : Nat
  since : Nat
  task : T

/-- Tasks on a clock that moves only when none of them can go on. Tasks that can go on are
queued in the order in which they became ready. -/
structure Schedule (W T : Type) where
  now : Time
  world : W
  tasks : List (Waiting T)
  queue : List Nat
  turn : Nat
  nextId : Nat

namespace Schedule

variable {W T : Type}

def new (world : W) : Schedule W T := ⟨0, world, [], [], 0, 0⟩

def add (s : Schedule W T) (task : T) : Schedule W T :=
  { s with
    tasks := s.tasks ++ [⟨s.nextId, s.turn, task⟩]
    turn := s.turn + 1
    nextId := s.nextId + 1 }

def addAll (s : Schedule W T) (tasks : List T) : Schedule W T := tasks.foldl add s

def mapWorld (s : Schedule W T) (f : W → W) : Schedule W T := { s with world := f s.world }

def earlier (a b : Waiting T) : Bool := a.since ≤ b.since

/-- Queues the tasks that have become ready, the one that waited longest first. -/
def wake (rules : Rules W T) (s : Schedule W T) : Schedule W T :=
  let woken := s.tasks.filter fun w => !s.queue.contains w.id && rules.ready s.now s.world w.task
  { s with queue := s.queue ++ (woken.mergeSort earlier).map (·.id) }

/-- Runs one task until it has to wait or ends. -/
def runTask (rules : Rules W T) : Nat → Time → W → T → List T → W × List T × Option T
  | 0, _, w, t, spawned => (w, spawned, some t)
  | fuel + 1, now, w, t, spawned =>
    if rules.ready now w t then
      match rules.step now w t with
      | (w, more, some t) => runTask rules fuel now w t (spawned ++ more)
      | (w, more, none) => (w, spawned ++ more, none)
    else (w, spawned, some t)

/-- Runs the tasks of the queue until none can go on at this time. -/
def settle (rules : Rules W T) : Nat → Schedule W T → Schedule W T
  | 0, s => s
  | fuel + 1, s =>
    let s := wake rules s
    match s.queue with
    | [] => s
    | id :: queue =>
      let s := { s with queue := queue }
      match s.tasks.find? (·.id == id) with
      | none => settle rules fuel s
      | some w =>
        let (world, spawned, rest) := runTask rules (fuel + 1) s.now s.world w.task []
        let others := s.tasks.filter (·.id != id)
        let tasks := match rest with
          | some t => others ++ [⟨id, s.turn, t⟩]
          | none => others
        let s := { s with world := world, tasks := tasks, turn := s.turn + 1 }
        settle rules fuel (s.addAll spawned)

def nextAlarm (rules : Rules W T) (s : Schedule W T) : Option Time :=
  s.tasks.foldl (fun best w =>
    match rules.alarm w.task, best with
    | some a, some b => some (min a b)
    | some a, none => some a
    | none, b => b) none

/-- Sets the clock to a time and queues the tasks whose alarm has come, the earliest first. -/
def ring (rules : Rules W T) (s : Schedule W T) (time : Time) : Schedule W T :=
  let alarm (w : Waiting T) : Time := (rules.alarm w.task).getD 0
  let due := s.tasks.filter fun w =>
    (rules.alarm w.task).any (· ≤ time) && rules.ready time s.world w.task
  let order (a b : Waiting T) : Bool := alarm a < alarm b || (alarm a == alarm b && a.since ≤ b.since)
  { s with now := time, queue := s.queue ++ (due.mergeSort order).map (·.id) }

/-- Lets time pass up to `limit`, or until `stop` holds when everything due has been run. -/
def advance (rules : Rules W T) (stop : Schedule W T → Bool) :
    Nat → Time → Schedule W T → Schedule W T
  | 0, _, s => s
  | fuel + 1, limit, s =>
    let s := settle rules (fuel + 1) s
    if stop s then s
    else
      match nextAlarm rules s with
      | some time =>
        if time ≤ limit then advance rules stop fuel limit (ring rules s (max time s.now))
        else { s with now := max limit s.now }
      | none => { s with now := max limit s.now }

end Schedule

end FedTrack
