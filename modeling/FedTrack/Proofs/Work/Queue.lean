import FedTrack.Work.Queue
import Mathlib.Data.List.Perm.Basic

namespace FedTrack.WorkQueue

variable {K : Type} [Key K]

@[simp] theorem isDirty_send (q : WorkQueue K) (key k : K) :
    (q.send key).isDirty k = q.isDirty k := rfl

@[simp] theorem isProcessing_send (q : WorkQueue K) (key k : K) :
    (q.send key).isProcessing k = q.isProcessing k := rfl

@[simp] theorem channel_send (q : WorkQueue K) (key : K) :
    (q.send key).channel = q.channel ++ [key] := rfl

@[simp] theorem isDirty_take (q : WorkQueue K) (key k : K) :
    (q.take key).isDirty k = (q.isDirty k && decide (key ≠ k)) := by
  by_cases h : key = k <;> simp [isDirty, take, Table.contains, h]

@[simp] theorem isProcessing_take (q : WorkQueue K) (key k : K) :
    (q.take key).isProcessing k = (q.isProcessing k || decide (key = k)) := by
  by_cases h : key = k <;> simp [isProcessing, take, Table.contains, h]

@[simp] theorem channel_take (q : WorkQueue K) (key : K) : (q.take key).channel = q.channel := rfl

@[simp] theorem isDirty_release (q : WorkQueue K) (key k : K) :
    (q.release key).1.isDirty k = q.isDirty k := rfl

@[simp] theorem isProcessing_release (q : WorkQueue K) (key k : K) :
    (q.release key).1.isProcessing k = (q.isProcessing k && decide (key ≠ k)) := by
  by_cases h : key = k <;> simp [isProcessing, release, Table.contains, h]

@[simp] theorem channel_release (q : WorkQueue K) (key : K) :
    (q.release key).1.channel = q.channel := rfl

@[simp] theorem release_snd (q : WorkQueue K) (key : K) : (q.release key).2 = q.isDirty key := rfl

@[simp] theorem isDirty_mark (q : WorkQueue K) (key k : K) :
    (q.mark key).1.isDirty k = (q.isDirty k || decide (key = k)) := by
  unfold mark
  by_cases hd : q.isDirty key = true
  · by_cases h : key = k
    · subst h
      simp [hd]
    · simp [hd, h]
  · rw [if_neg hd]
    by_cases h : key = k <;> simp [isDirty, Table.contains, h]

@[simp] theorem isProcessing_mark (q : WorkQueue K) (key k : K) :
    (q.mark key).1.isProcessing k = q.isProcessing k := by
  unfold mark
  split <;> rfl

@[simp] theorem channel_mark (q : WorkQueue K) (key : K) : (q.mark key).1.channel = q.channel := by
  unfold mark
  split <;> rfl

@[simp] theorem mark_snd (q : WorkQueue K) (key : K) :
    (q.mark key).2 = (!q.isDirty key && !q.isProcessing key) := by
  unfold mark
  by_cases hd : q.isDirty key = true <;> simp [hd]

@[simp] theorem isDirty_add (q : WorkQueue K) (key k : K) :
    (q.add key).isDirty k = (q.isDirty k || decide (key = k)) := by
  rw [← isDirty_mark]
  unfold add
  split <;> simp_all

@[simp] theorem isProcessing_add (q : WorkQueue K) (key k : K) :
    (q.add key).isProcessing k = q.isProcessing k := by
  rw [← isProcessing_mark q key]
  unfold add
  split <;> simp_all

@[simp] theorem isDirty_done (q : WorkQueue K) (key k : K) :
    (q.done key).isDirty k = q.isDirty k := by
  rw [← isDirty_release q key]
  unfold done
  split <;> simp_all

@[simp] theorem isProcessing_done (q : WorkQueue K) (key k : K) :
    (q.done key).isProcessing k = (q.isProcessing k && decide (key ≠ k)) := by
  rw [← isProcessing_release]
  unfold done
  split <;> simp_all

theorem receive_eq_some {q q' : WorkQueue K} {key : K} (h : q.receive = some (key, q')) :
    q.channel = key :: q'.channel ∧ (∀ k, q'.isDirty k = q.isDirty k) ∧
      ∀ k, q'.isProcessing k = q.isProcessing k := by
  unfold receive at h
  split at h
  · cases h
  · rename_i k rest hc
    cases h
    exact ⟨hc, fun _ => rfl, fun _ => rfl⟩

/-- A key that is to be sent, or none. -/
def onlyIf (send : Bool) (key : K) : List K := if send then [key] else []

theorem count_onlyIf (send : Bool) (key k : K) :
    (onlyIf send key).count k = if send && decide (key = k) then 1 else 0 := by
  cases send <;> by_cases h : key = k <;> simp [onlyIf, h]

/-- The queue agrees with the calls on their way: `moving` are the keys that are about to be sent
or have been received and not yet taken, `working` those taken and not yet released. -/
structure Sound (q : WorkQueue K) (moving working : List K) : Prop where
  waiting : ∀ key, q.channel.count key + moving.count key =
    if q.isDirty key && !q.isProcessing key then 1 else 0
  taken : ∀ key, working.count key = if q.isProcessing key then 1 else 0

namespace Sound

variable {q : WorkQueue K} {moving working : List K} {key : K}

theorem empty : Sound (empty : WorkQueue K) [] [] := ⟨fun _ => rfl, fun _ => rfl⟩

theorem perm {moving' working' : List K} (h : Sound q moving working) (hm : moving'.Perm moving)
    (hw : working'.Perm working) : Sound q moving' working' := by
  refine ⟨fun k => ?_, fun k => ?_⟩
  · rw [hm.count_eq]
    exact h.waiting k
  · rw [hw.count_eq]
    exact h.taken k

theorem mark (h : Sound q moving working) (key : K) :
    Sound (q.mark key).1 (onlyIf (q.mark key).2 key ++ moving) working := by
  refine ⟨fun k => ?_, fun k => ?_⟩
  · have hw := h.waiting k
    rw [channel_mark, isDirty_mark, isProcessing_mark, mark_snd, List.count_append, count_onlyIf]
    by_cases hk : key = k
    · subst hk
      cases hd : q.isDirty key <;> cases hp : q.isProcessing key <;> simp [hd, hp] at hw ⊢ <;> omega
    · simp only [hk, decide_false, Bool.and_false, Bool.or_false, Bool.false_eq_true, if_false,
        Nat.zero_add]
      exact hw
  · rw [isProcessing_mark]
    exact h.taken k

theorem send (h : Sound q (key :: moving) working) : Sound (q.send key) moving working := by
  refine ⟨fun k => ?_, h.taken⟩
  have hw := h.waiting k
  by_cases hk : key = k
  · subst hk
    simp at hw ⊢
    omega
  · simpa [hk] using hw

theorem receive {q' : WorkQueue K} (h : Sound q moving working)
    (hr : q.receive = some (key, q')) : Sound q' (key :: moving) working := by
  obtain ⟨hc, hd, hp⟩ := receive_eq_some hr
  refine ⟨fun k => ?_, fun k => ?_⟩
  · have hw := h.waiting k
    rw [hc] at hw
    rw [hd, hp, ← hw, List.count_cons, List.count_cons]
    omega
  · rw [hp]
    exact h.taken k

/-- A key on its way is dirty, and nobody works on it. -/
theorem of_moving (h : Sound q (key :: moving) working) :
    q.isDirty key = true ∧ q.isProcessing key = false := by
  have hw := h.waiting key
  cases hd : q.isDirty key <;> cases hp : q.isProcessing key <;> simp_all

theorem take (h : Sound q (key :: moving) working) : Sound (q.take key) moving (key :: working) := by
  obtain ⟨hd, hp⟩ := h.of_moving
  refine ⟨fun k => ?_, fun k => ?_⟩
  · have hw := h.waiting k
    by_cases hk : key = k
    · subst hk
      simp_all
      omega
    · simpa [hk] using hw
  · have ht := h.taken k
    by_cases hk : key = k
    · subst hk
      simp_all
    · simpa [hk] using ht

theorem of_working (h : Sound q moving (key :: working)) : q.isProcessing key = true := by
  have ht := h.taken key
  cases hp : q.isProcessing key
  · simp [hp] at ht
  · rfl

theorem release (h : Sound q moving (key :: working)) :
    Sound (q.release key).1 (onlyIf (q.release key).2 key ++ moving) working := by
  have hp := h.of_working
  refine ⟨fun k => ?_, fun k => ?_⟩
  · have hw := h.waiting k
    rw [channel_release, isDirty_release, isProcessing_release, release_snd, List.count_append,
      count_onlyIf]
    by_cases hk : key = k
    · subst hk
      cases hd : q.isDirty key <;> simp [hd, hp] at hw ⊢ <;> omega
    · simp only [hk, decide_false, ne_eq, not_false_eq_true, decide_true, Bool.and_true,
        Bool.and_false, Bool.false_eq_true, if_false, Nat.zero_add]
      exact hw
  · have ht := h.taken k
    by_cases hk : key = k
    · subst hk
      simp_all
    · simpa [hk] using ht

theorem add (h : Sound q moving working) (key : K) : Sound (q.add key) moving working := by
  have hm := h.mark key
  unfold WorkQueue.add
  split
  · rename_i q' he
    rw [he] at hm
    exact hm.send
  · rename_i q' he
    rw [he] at hm
    exact hm

theorem done (h : Sound q moving (key :: working)) : Sound (q.done key) moving working := by
  have hr := h.release
  unfold WorkQueue.done
  split
  · rename_i q' he
    rw [he] at hr
    exact hr.send
  · rename_i q' he
    rw [he] at hr
    exact hr

theorem nodup_waiting (h : Sound q moving working) : (q.channel ++ moving).Nodup := by
  rw [List.nodup_iff_count]
  intro k
  rw [List.count_append, h.waiting k]
  split <;> omega

theorem mem_waiting (h : Sound q moving working) (k : K) :
    k ∈ q.channel ++ moving ↔ q.isDirty k = true ∧ q.isProcessing k = false := by
  rw [← List.count_pos_iff, List.count_append, h.waiting k]
  cases q.isDirty k <;> cases q.isProcessing k <;> simp

theorem nodup_working (h : Sound q moving working) : working.Nodup := by
  rw [List.nodup_iff_count]
  intro k
  rw [h.taken k]
  split <;> omega

theorem mem_working (h : Sound q moving working) (k : K) :
    k ∈ working ↔ q.isProcessing k = true := by
  rw [← List.count_pos_iff, h.taken k]
  cases q.isProcessing k <;> simp

end Sound

/-- A call on its way, between two of its steps. `get` ends with a key to work on, and the end of
that work belongs to the same call. -/
inductive Caller (K : Type)
  | adding (key : K)
  | getting
  | received (key : K)
  | working (key : K)
  /-- The lock is released, the key is still to be sent. -/
  | sending (key : K)
  | ended

namespace Caller

def moving? : Caller K → Option K
  | .received key | .sending key => some key
  | _ => none

def working? : Caller K → Option K
  | .working key => some key
  | _ => none

def sendIf (send : Bool) (key : K) : Caller K := if send then .sending key else .ended

/-- A step is a locked section, a sending or a receiving. -/
def step (q : WorkQueue K) : Caller K → WorkQueue K × Caller K
  | .adding key => ((q.mark key).1, sendIf (q.mark key).2 key)
  | .getting =>
    match q.receive with
    | some (key, q) => (q, .received key)
    | none => (q, .getting)
  | .received key => (q.take key, .working key)
  | .working key => ((q.release key).1, sendIf (q.release key).2 key)
  | .sending key => (q.send key, .ended)
  | .ended => (q, .ended)

/-- Receiving a key marks nothing. -/
theorem marks_getting (q : WorkQueue K) (k : K) :
    (step q .getting).1.isDirty k = q.isDirty k ∧
      (step q .getting).1.isProcessing k = q.isProcessing k := by
  cases hr : q.receive with
  | none => simp [step, hr]
  | some e =>
    obtain ⟨-, hd, hp⟩ := receive_eq_some hr
    simp [step, hr, hd, hp]

end Caller

/-- The queue agrees with all the calls on their way. -/
def Staffed (q : WorkQueue K) (callers : List (Caller K)) : Prop :=
  Sound q (callers.filterMap Caller.moving?) (callers.filterMap Caller.working?)

namespace Staffed

variable {q : WorkQueue K} {callers : List (Caller K)} {c c' : Caller K} {i : Nat}

omit [Key K] in
/-- One call stands apart from the others, which do not matter to its step. -/
theorem apart (hi : callers[i]? = some c) : ∃ others : List (Caller K),
    callers.Perm (c :: others) ∧ ∀ c', (callers.set i c').Perm (c' :: others) := by
  obtain ⟨hlt, hc⟩ := List.getElem?_eq_some_iff.mp hi
  refine ⟨callers.eraseIdx i, ?_, fun c' => List.set_perm_cons_eraseIdx hlt c'⟩
  rw [← hc]
  exact (List.getElem_cons_eraseIdx_perm hlt).symm

theorem perm {callers' : List (Caller K)} (h : Staffed q callers) (hp : callers'.Perm callers) :
    Staffed q callers' :=
  Sound.perm h (hp.filterMap _) (hp.filterMap _)

/-- It is enough to look at a call beside all others. -/
theorem set {q' : WorkQueue K} (h : Staffed q callers) (hi : callers[i]? = some c)
    (hstep : ∀ others, Staffed q (c :: others) → Staffed q' (c' :: others)) :
    Staffed q' (callers.set i c') := by
  obtain ⟨others, hc, hset⟩ := apart hi
  exact (hstep others (h.perm hc.symm)).perm (hset c')

theorem sendIf {others : List (Caller K)} {send : Bool} {key : K}
    (h : Sound q (onlyIf send key ++ others.filterMap Caller.moving?)
      (others.filterMap Caller.working?)) : Staffed q (Caller.sendIf send key :: others) := by
  cases send <;> exact h

theorem step_cons {others : List (Caller K)} (h : Staffed q (c :: others)) :
    Staffed (c.step q).1 ((c.step q).2 :: others) := by
  cases c with
  | adding key => exact sendIf (Sound.mark h key)
  | getting =>
    cases hr : q.receive with
    | none =>
      simp only [Caller.step, hr]
      exact h
    | some e =>
      simp only [Caller.step, hr]
      exact Sound.receive h hr
  | received key => exact Sound.take h
  | working key => exact sendIf (Sound.release h)
  | sending key => exact Sound.send h
  | ended => exact h

theorem add (h : Staffed q callers) (key : K) : Staffed (q.add key) callers := Sound.add h key

theorem step (h : Staffed q callers) (hi : callers[i]? = some c) :
    Staffed (c.step q).1 (callers.set i (c.step q).2) :=
  h.set hi fun _ => step_cons

/-- Where a key is marked it is dirty, and it stays so until it is taken. -/
theorem isDirty_step {k : K} (hk : q.isDirty k = true) (hc : c ≠ .received k) :
    (c.step q).1.isDirty k = true := by
  cases c with
  | adding key => simp [Caller.step, hk]
  | getting =>
    rw [(Caller.marks_getting q k).1]
    exact hk
  | received key =>
    have hne : key ≠ k := fun he => hc (by rw [he])
    simp [Caller.step, hk, hne]
  | working key => simp [Caller.step, hk]
  | sending key => simp [Caller.step, hk]
  | ended => exact hk

end Staffed

/-- A queue and all the calls made of it so far, by any number of threads. -/
structure Crowd (K : Type) [Key K] where
  queue : WorkQueue K
  callers : List (Caller K)

/-- A call begins, takes its next step, or gives up waiting for a key. -/
inductive Move (K : Type)
  | add (key : K)
  | get
  | go (i : Nat)
  | giveUp (i : Nat)

namespace Crowd

def empty : Crowd K := ⟨.empty, []⟩

def step (s : Crowd K) : Move K → Crowd K
  | .add key => { s with callers := s.callers ++ [.adding key] }
  | .get => { s with callers := s.callers ++ [.getting] }
  | .go i =>
    match s.callers[i]? with
    | some c => ⟨(c.step s.queue).1, s.callers.set i (c.step s.queue).2⟩
    | none => s
  | .giveUp i =>
    match s.callers[i]? with
    | some .getting => { s with callers := s.callers.set i .ended }
    | _ => s

def run (s : Crowd K) (moves : List (Move K)) : Crowd K := moves.foldl step s

/-- Keys about to be sent, or received and not yet marked as taken. -/
def moving (s : Crowd K) : List K := s.callers.filterMap Caller.moving?

/-- Keys that were returned and are worked on. -/
def working (s : Crowd K) : List K := s.callers.filterMap Caller.working?

theorem staffed_step {s : Crowd K} (h : Staffed s.queue s.callers) (m : Move K) :
    Staffed (s.step m).queue (s.step m).callers := by
  cases m with
  | add key =>
    have hnew : Staffed s.queue (.adding key :: s.callers) := h
    exact hnew.perm (List.perm_append_singleton _ _)
  | get =>
    have hnew : Staffed s.queue (.getting :: s.callers) := h
    exact hnew.perm (List.perm_append_singleton _ _)
  | go i =>
    cases hi : s.callers[i]? with
    | none =>
      simp only [step, hi]
      exact h
    | some c =>
      simp only [step, hi]
      exact h.step hi
  | giveUp i =>
    simp only [step]
    split
    · rename_i hi
      exact h.set hi fun _ hs => hs
    · exact h

theorem staffed_run {s : Crowd K} (h : Staffed s.queue s.callers) (moves : List (Move K)) :
    Staffed (s.run moves).queue (s.run moves).callers := by
  induction moves generalizing s with
  | nil => exact h
  | cons m rest ih => exact ih (staffed_step h m)

theorem run_append (s : Crowd K) (a b : List (Move K)) : s.run (a ++ b) = (s.run a).run b :=
  List.foldl_append

theorem isDirty_step {s : Crowd K} {key : K} (hd : s.queue.isDirty key = true) {m : Move K}
    (hm : ∀ i, m = .go i → s.callers[i]? ≠ some (.received key)) :
    (s.step m).queue.isDirty key = true := by
  cases m with
  | add k => exact hd
  | get => exact hd
  | go i =>
    cases hi : s.callers[i]? with
    | none =>
      simp only [step, hi]
      exact hd
    | some c =>
      simp only [step, hi]
      exact Staffed.isDirty_step hd fun hc => hm i rfl (by rw [hi, hc])
  | giveUp i =>
    simp only [step]
    split <;> exact hd

/-- A dirty key stays dirty until one of the calls takes it. -/
theorem isDirty_or_taken {s : Crowd K} {key : K} (hd : s.queue.isDirty key = true)
    (moves : List (Move K)) :
    (s.run moves).queue.isDirty key = true ∨
      ∃ mid i rest, moves = mid ++ .go i :: rest ∧
        (s.run mid).callers[i]? = some (.received key) := by
  induction moves generalizing s with
  | nil => exact Or.inl hd
  | cons m tail ih =>
    by_cases hm : ∃ i, m = .go i ∧ s.callers[i]? = some (.received key)
    · obtain ⟨i, rfl, hi⟩ := hm
      exact Or.inr ⟨[], i, tail, rfl, hi⟩
    · have hstep : (s.step m).queue.isDirty key = true :=
        isDirty_step hd fun i he hi => hm ⟨i, he, hi⟩
      rcases ih hstep with h | ⟨mid, i, rest, rfl, hi⟩
      · exact Or.inl h
      · exact Or.inr ⟨m :: mid, i, rest, rfl, hi⟩

/-- After the first step of an addition the key is dirty. -/
theorem isDirty_added {s : Crowd K} {i : Nat} {key : K}
    (hi : s.callers[i]? = some (.adding key)) : (s.step (.go i)).queue.isDirty key = true := by
  simp [step, hi, Caller.step]

/-- Whatever the order in which the calls of any number of threads take their steps: a key is
worked on at most once at a time, a key is on its way to a worker at most once and exactly if it
is dirty and not worked on, and work on an added key begins after it was added, unless the key is
still dirty. -/
theorem queue_excludes_and_loses_nothing (moves : List (Move K)) :
    ((empty.run moves).working.Nodup ∧
      ∀ key, key ∈ (empty.run moves).working ↔
        (empty.run moves).queue.isProcessing key = true) ∧
    (((empty.run moves).queue.channel ++ (empty.run moves).moving).Nodup ∧
      ∀ key, key ∈ (empty.run moves).queue.channel ++ (empty.run moves).moving ↔
        (empty.run moves).queue.isDirty key = true ∧
          (empty.run moves).queue.isProcessing key = false) ∧
    ∀ earlier i later key, moves = earlier ++ .go i :: later →
      (empty.run earlier).callers[i]? = some (.adding key) →
        (empty.run moves).queue.isDirty key = true ∨
          ∃ mid j rest, later = mid ++ .go j :: rest ∧
            (empty.run (earlier ++ .go i :: mid)).callers[j]? = some (.received key) := by
  have h : Sound (empty.run moves).queue (empty.run moves).moving (empty.run moves).working :=
    staffed_run (s := empty) Sound.empty moves
  refine ⟨⟨h.nodup_working, h.mem_working⟩, ⟨h.nodup_waiting, h.mem_waiting⟩, ?_⟩
  intro earlier i later key he hi
  have hd := isDirty_added hi
  have hrun (l : List (Move K)) :
      empty.run (earlier ++ .go i :: l) = ((empty.run earlier).step (.go i)).run l :=
    run_append _ _ _
  rw [he, hrun]
  rcases isDirty_or_taken hd later with hdirty | ⟨mid, j, rest, hl, hj⟩
  · exact Or.inl hdirty
  · refine Or.inr ⟨mid, j, rest, hl, ?_⟩
    rw [hrun]
    exact hj

end Crowd

end FedTrack.WorkQueue
