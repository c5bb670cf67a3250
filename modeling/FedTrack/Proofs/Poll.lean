import FedTrack.Poll
import Mathlib.Data.List.Range

namespace FedTrack

namespace Machine

theorem le_roundUp {k : Nat} (hk : 0 < k) (t : Nat) : t ≤ (t + (k - 1)) / k * k := by
  have hround := Nat.lt_div_mul_add (a := t + (k - 1)) hk
  omega

theorem roundUp_lt {k : Nat} (hk : 0 < k) (t : Nat) : (t + (k - 1)) / k * k < t + k := by
  have hround := Nat.div_mul_le_self (t + (k - 1)) k
  omega

theorem roundUp_of_dvd {k t : Nat} (hk : 0 < k) (h : k ∣ t) : (t + (k - 1)) / k * k = t := by
  obtain ⟨n, rfl⟩ := h
  have hrest : (k - 1) / k = 0 := Nat.div_eq_of_lt (Nat.sub_lt hk Nat.one_pos)
  rw [Nat.mul_add_div hk, hrest, Nat.add_zero, Nat.mul_comm]

/-- A timer does not go off early, -/
theorem le_wakes (m : Machine) (t : Time) : t ≤ m.wakes t := le_roundUp m.tick_pos t

/-- nor late by a whole tick, -/
theorem wakes_lt (m : Machine) (t : Time) : m.wakes t < t + m.tick := roundUp_lt m.tick_pos t

/-- and it is exact at a tick. -/
theorem wakes_of_dvd (m : Machine) {t : Time} (h : m.tick ∣ t) : m.wakes t = t :=
  roundUp_of_dvd m.tick_pos h

end Machine

/-- A polling loop: the machine it runs on, what it is started with and, for every attempt by its
number, the span that it takes and what it comes to. -/
structure Polling (α : Type) where
  machine : Machine
  interval : Span
  timeout : Span
  started : Time
  step : Nat → Span × Attempt α

namespace Polling

variable {α : Type}

/-- When the attempt after `n` others begins: with the first tick an interval after the one before it
ended. -/
def begins (p : Polling α) : Nat → Time
  | 0 => p.started
  | n + 1 => p.machine.wakes (p.begins n + (p.step (n + 1)).1 + p.interval)

def ends (p : Polling α) (n : Nat) : Time := p.begins n + (p.step (n + 1)).1

/-- When the next attempt after it would be due. -/
def next (p : Polling α) (n : Nat) : Time := p.ends n + p.interval

def deadline (p : Polling α) : Time := p.started + p.timeout

/-- The attempt after `n` others ends without result, in time for another one, and that one can be
counted. -/
def GoesOn (p : Polling α) (n : Nat) : Prop :=
  (p.step (n + 1)).2 = .retry ∧ p.next n ≤ p.deadline ∧
    (p.machine.checked = true → n + 2 < 0x100000000)

/-- The attempt after `n` others is the first one after which the loop does not go on. -/
def IsLast (p : Polling α) (n : Nat) : Prop := (∀ k < n, p.GoesOn k) ∧ ¬ p.GoesOn n

/-- How the loop ends if no attempt is made after this one: as the attempt ends, but for one that
would have been in time and cannot be counted. -/
def history (p : Polling α) (n : Nat) : PollHistory α :=
  let starts := (List.range (n + 1)).map p.begins
  match (p.step (n + 1)).2 with
  | .done value => ⟨starts, p.ends n, .ok value⟩
  | .failed message => ⟨starts, p.ends n, .error (.failed message)⟩
  | .retry =>
    if p.machine.last < p.next n then ⟨starts, p.ends n, .error (.overflow .moment)⟩
    else if p.deadline < p.next n then
      ⟨starts, p.ends n, .error (.timedOut (.ofNat (n + 1)) p.timeout)⟩
    else ⟨starts, p.machine.wakes (p.next n), .error (.overflow .count)⟩

def start (p : Polling α) : Poll := Poll.start p.interval p.timeout p.started

def run (p : Polling α) (fuel : Nat) : Option (PollHistory α) :=
  Poll.runOn p.machine p.step fuel p.start p.started []

/-- The loop ends, with this history. -/
def EndsWith (p : Polling α) (h : PollHistory α) : Prop := ∃ fuel, p.run fuel = some h

/-- The loop comes to begin the attempt of some number, with what it has noted by then, at some
time. -/
inductive Reaches (p : Polling α) : Nat → Poll → Time → Prop
  | first (h : p.deadline ≤ p.machine.last) : Reaches p 1 p.start p.started
  | next {n : Nat} {q q' : Poll} {t t' : Time} (h : Reaches p n q t) (hstep : (p.step n).2 = .retry)
      (hretry : q.retry (t + (p.step n).1) = some (q', t'))
      (hcount : (p.machine.checked && q'.attempts == 0) = false) :
      Reaches p (n + 1) q' (p.machine.wakes t')

/-- What the loop has noted before the attempt after `n` others. -/
def noted (p : Polling α) (n : Nat) : Poll := ⟨p.interval, p.timeout, p.deadline, .ofNat (n + 1)⟩

/-- Whatever the loop waits for happens at ticks of its timers. -/
def OnTicks (p : Polling α) : Prop :=
  p.machine.tick ∣ p.started ∧ p.machine.tick ∣ p.interval ∧ ∀ n, p.machine.tick ∣ (p.step n).1

variable {p : Polling α}

theorem starts_history (n : Nat) : (p.history n).starts = (List.range (n + 1)).map p.begins := by
  unfold history
  split
  · rfl
  · rfl
  · split
    · rfl
    · split <;> rfl

/-- Of the first attempts one is the last one, or all of them are followed by another one. -/
theorem last_or_all (p : Polling α) (n : Nat) : (∃ m < n, p.IsLast m) ∨ ∀ k < n, p.GoesOn k := by
  induction n with
  | zero => exact Or.inr nofun
  | succ n ih =>
    rcases ih with ⟨m, hm, hlast⟩ | hall
    · exact Or.inl ⟨m, Nat.lt_succ_of_lt hm, hlast⟩
    · by_cases h : p.GoesOn n
      · refine Or.inr ?_
        intro k hk
        rcases Nat.lt_succ_iff_lt_or_eq.mp hk with hk | rfl
        · exact hall k hk
        · exact h
      · exact Or.inl ⟨n, Nat.lt_succ_self n, hall, h⟩

theorem last_unique {m n : Nat} (hm : p.IsLast m) (hn : p.IsLast n) : m = n := by
  rcases Nat.lt_trichotomy m n with h | h | h
  · exact absurd (hn.1 m h) hm.2
  · exact h
  · exact absurd (hm.1 n h) hn.2

theorem retry_noted {n : Nat} : (p.noted n).retry (p.ends n) =
    if p.next n ≤ p.deadline then some (p.noted (n + 1), p.next n) else none := by
  have hcount : UInt32.ofNat (n + 1) + 1 = UInt32.ofNat (n + 2) := (UInt32.ofNat_add (n + 1) 1).symm
  have hnext : (p.noted n).retry (p.ends n) = if p.deadline < p.next n then none
      else some ({ p.noted n with attempts := UInt32.ofNat (n + 1) + 1 }, p.next n) := rfl
  rw [hnext, hcount]
  by_cases h : p.next n ≤ p.deadline
  · exact (if_neg (Nat.not_lt.mpr h)).trans (if_pos h).symm
  · exact (if_pos (Nat.lt_of_not_le h)).trans (if_neg h).symm

/-- A count that has overflowed for the first time is zero. -/
theorem overflowed_iff {n : Nat} (h : n + 1 < 0x100000000) :
    (UInt32.ofNat (n + 2) == 0) = true ↔ ¬ n + 2 < 0x100000000 := by
  rw [beq_iff_eq, ← UInt32.toNat_inj, UInt32.toNat_ofNat']
  show (n + 2) % 0x100000000 = 0 ↔ _
  omega

/-- On a machine that checks its counts, an attempt that is begun has been counted. -/
theorem counted_of_goesOn {n : Nat} (h : ∀ k < n, p.GoesOn k) (hc : p.machine.checked = true) :
    n + 1 < 0x100000000 := by
  cases n with
  | zero => decide
  | succ n => exact (h n (Nat.lt_succ_self n)).2.2 hc

theorem overflows_iff {n : Nat} (h : ∀ k < n, p.GoesOn k) :
    (p.machine.checked && (p.noted (n + 1)).attempts == 0) = true ↔
      ¬ (p.machine.checked = true → n + 2 < 0x100000000) := by
  rw [Bool.and_eq_true, Classical.not_imp]
  refine and_congr_right ?_
  intro hc
  exact overflowed_iff (counted_of_goesOn h hc)

/-- Attempts are begun as scheduled. -/
theorem reaches_iff {number : Nat} {q : Poll} {t : Time} : p.Reaches number q t ↔
    p.deadline ≤ p.machine.last ∧
      ∃ n, (∀ k < n, p.GoesOn k) ∧ number = n + 1 ∧ q = p.noted n ∧ t = p.begins n := by
  constructor
  · intro h
    induction h with
    | first hlast => exact ⟨hlast, 0, nofun, rfl, rfl, rfl⟩
    | next _ hstep hretry hcount ih =>
      obtain ⟨hlast, n, hall, rfl, rfl, rfl⟩ := ih
      have hn : (p.noted n).retry (p.ends n) = some (_, _) := hretry
      rw [retry_noted] at hn
      split at hn
      · rename_i hle
        cases hn
        refine ⟨hlast, n + 1, ?_, rfl, rfl, rfl⟩
        intro k hk
        rcases Nat.lt_succ_iff_lt_or_eq.mp hk with hk | rfl
        · exact hall k hk
        · refine ⟨hstep, hle, ?_⟩
          exact Classical.not_not.mp fun h => Bool.eq_false_iff.mp hcount ((overflows_iff hall).mpr h)
      · cases hn
  · rintro ⟨hlast, n, hall, rfl, rfl, rfl⟩
    induction n with
    | zero => exact .first hlast
    | succ n ih =>
      obtain ⟨hstep, hle, hcount⟩ := hall n (Nat.lt_succ_self n)
      have hall' : ∀ k < n, p.GoesOn k := fun k hk => hall k (Nat.lt_succ_of_lt hk)
      refine .next (ih hall') hstep (retry_noted.trans (if_pos hle)) ?_
      exact Bool.eq_false_iff.mpr fun h => (overflows_iff hall').mp h hcount

/-- None of them is begun more than a tick after the deadline. -/
theorem begins_lt_deadline {n : Nat} (h : ∀ k < n, p.GoesOn k) :
    p.begins n < p.deadline + p.machine.tick := by
  cases n with
  | zero =>
    exact Nat.lt_of_le_of_lt (Nat.le_add_right p.started p.timeout)
      (Nat.lt_add_of_pos_right p.machine.tick_pos)
  | succ n =>
    exact Nat.lt_of_lt_of_le (p.machine.wakes_lt (p.next n))
      (Nat.add_le_add_right (h n (Nat.lt_succ_self n)).2.1 _)

section
variable (hticks : p.OnTicks)
include hticks

theorem tick_dvd_begins (n : Nat) : p.machine.tick ∣ p.begins n := by
  cases n with
  | zero => exact hticks.1
  | succ n => exact Nat.dvd_mul_left _ _

theorem begins_succ_of_onTicks (n : Nat) : p.begins (n + 1) = p.ends n + p.interval := by
  have hends : p.machine.tick ∣ p.ends n := Nat.dvd_add (tick_dvd_begins hticks n) (hticks.2.2 _)
  exact p.machine.wakes_of_dvd (Nat.dvd_add hends hticks.2.1)

theorem begins_le_deadline {n : Nat} (h : ∀ k < n, p.GoesOn k) : p.begins n ≤ p.deadline := by
  cases n with
  | zero => exact Nat.le_add_right _ _
  | succ n =>
    rw [begins_succ_of_onTicks hticks]
    exact (h n (Nat.lt_succ_self n)).2.1

end

/-- The loop from the attempt after `n` others. -/
def runFrom (p : Polling α) (n fuel : Nat) : Option (PollHistory α) :=
  Poll.runFrom p.machine p.step fuel (n + 1) (p.noted n) (p.begins n)
    ((List.range n).map p.begins).reverse

section
variable (hlast : p.deadline ≤ p.machine.last)
include hlast

theorem runFrom_of_goesOn {n : Nat} (hall : ∀ k < n, p.GoesOn k) (h : p.GoesOn n) (fuel : Nat) :
    p.runFrom n (fuel + 1) = p.runFrom (n + 1) fuel := by
  have hretry : (p.noted n).retry (p.begins n + (p.step (n + 1)).1) =
      some (p.noted (n + 1), p.next n) := retry_noted.trans (if_pos h.2.1)
  have hmoment : ¬ p.machine.last < p.begins n + (p.step (n + 1)).1 + (p.noted n).interval :=
    Nat.not_lt.mpr (Nat.le_trans h.2.1 hlast)
  have hcount : ¬ (p.machine.checked && (p.noted (n + 1)).attempts == 0) = true :=
    fun ho => (overflows_iff hall).mp ho h.2.2
  unfold runFrom
  rw [List.range_succ, List.map_append, List.reverse_append]
  simp only [Poll.runFrom, h.1, if_neg hmoment, hretry, if_neg hcount]
  rfl

theorem runFrom_of_last {n : Nat} (h : p.IsLast n) (fuel : Nat) :
    p.runFrom n (fuel + 1) = some (p.history n) := by
  have hstarts : (p.begins n :: ((List.range n).map p.begins).reverse).reverse =
      (List.range (n + 1)).map p.begins := by
    rw [List.range_succ, List.map_append, List.reverse_cons, List.reverse_reverse]
    rfl
  have hretry : (p.noted n).retry (p.begins n + (p.step (n + 1)).1) =
      if p.next n ≤ p.deadline then some (p.noted (n + 1), p.next n) else none := retry_noted
  have hnext : p.begins n + (p.step (n + 1)).1 + (p.noted n).interval = p.next n := rfl
  unfold runFrom history
  cases hstep : (p.step (n + 1)).2 with
  | done value => simp only [Poll.runFrom, hstep, hstarts]; rfl
  | failed message => simp only [Poll.runFrom, hstep, hstarts]; rfl
  | retry =>
    simp only [Poll.runFrom, hstep, hstarts, hnext, hretry]
    by_cases hle : p.next n ≤ p.deadline
    · -- in time, but one attempt too many to be counted
      have hmoment : ¬ p.machine.last < p.next n := Nat.not_lt.mpr (Nat.le_trans hle hlast)
      have hcount : (p.machine.checked && (p.noted (n + 1)).attempts == 0) = true :=
        (overflows_iff h.1).mpr fun hc => h.2 ⟨hstep, hle, hc⟩
      simp only [if_neg hmoment, if_pos hle, if_pos hcount, if_neg (Nat.not_lt.mpr hle)]
    · simp only [if_neg hle, if_pos (Nat.lt_of_not_le hle)]
      split <;> rfl

theorem history_of_uncounted {n : Nat} (hstep : (p.step (n + 1)).2 = .retry)
    (hin : p.next n ≤ p.deadline) : p.history n =
      ⟨(List.range (n + 1)).map p.begins, p.machine.wakes (p.next n), .error (.overflow .count)⟩ := by
  have hmoment : ¬ p.machine.last < p.next n := Nat.not_lt.mpr (Nat.le_trans hin hlast)
  simp only [history, hstep, if_neg hmoment, if_neg (Nat.not_lt.mpr hin)]

theorem run_add {n : Nat} (h : ∀ k < n, p.GoesOn k) (fuel : Nat) :
    p.run (n + fuel) = p.runFrom n fuel := by
  induction n generalizing fuel with
  | zero =>
    rw [Nat.zero_add]
    exact if_neg (Nat.not_lt.mpr hlast)
  | succ n ih =>
    have hall : ∀ k < n, p.GoesOn k := fun k hk => h k (Nat.lt_succ_of_lt hk)
    rw [← runFrom_of_goesOn hlast hall (h n (Nat.lt_succ_self n)), ← ih hall]
    congr 1
    omega

/-- The loop ends if and only if one of its attempts is the last one. -/
theorem endsWith_iff {h : PollHistory α} : p.EndsWith h ↔ ∃ n, p.IsLast n ∧ h = p.history n := by
  constructor
  · rintro ⟨fuel, hrun⟩
    rcases p.last_or_all fuel with ⟨n, hn, hn'⟩ | hall
    · obtain ⟨more, rfl⟩ := Nat.exists_eq_add_of_lt hn
      rw [Nat.add_assoc, run_add hlast hn'.1, runFrom_of_last hlast hn'] at hrun
      exact ⟨n, hn', (Option.some.inj hrun).symm⟩
    · have hnone : p.run fuel = none := run_add hlast hall 0
      rw [hnone] at hrun
      cases hrun
  · rintro ⟨n, hn, rfl⟩
    exact ⟨n + 1, (run_add hlast hn.1 1).trans (runFrom_of_last hlast hn 0)⟩

theorem endsWith_iff_of_last {n : Nat} (hn : p.IsLast n) {h : PollHistory α} :
    p.EndsWith h ↔ h = p.history n := by
  rw [endsWith_iff hlast]
  constructor
  · rintro ⟨m, hm, rfl⟩
    rw [last_unique hm hn]
  · rintro rfl
    exact ⟨n, hn, rfl⟩

end

/-- If its deadline cannot be told, the loop makes no attempt. -/
theorem endsWith_iff_of_late (hlate : p.machine.last < p.deadline) {h : PollHistory α} :
    p.EndsWith h ↔ h = ⟨[], p.started, .error (.overflow .moment)⟩ := by
  have hrun (fuel : Nat) : p.run fuel = some ⟨[], p.started, .error (.overflow .moment)⟩ :=
    if_pos hlate
  constructor
  · rintro ⟨fuel, hend⟩
    exact (Option.some.inj ((hrun fuel).symm.trans hend)).symm
  · rintro rfl
    exact ⟨0, hrun 0⟩

theorem add_mul_le_next (p : Polling α) (n : Nat) :
    p.started + (n + 1) * p.interval ≤ p.next n := by
  have hstep (n : Nat) : p.begins n + p.interval ≤ p.next n :=
    Nat.add_le_add_right (Nat.le_add_right _ _) _
  induction n with
  | zero => exact (Nat.one_mul p.interval).symm ▸ hstep 0
  | succ n ih =>
    calc p.started + (n + 1 + 1) * p.interval
        = p.started + (n + 1) * p.interval + p.interval := by rw [Nat.succ_mul, Nat.add_assoc]
      _ ≤ p.begins (n + 1) + p.interval :=
        Nat.add_le_add_right (Nat.le_trans ih (p.machine.le_wakes (p.next n))) _
      _ ≤ p.next (n + 1) := hstep (n + 1)

/-- With a positive interval the loop ends, and after no more attempts than there is time for. -/
theorem last_of_pos (h : 0 < p.interval) : ∃ n ≤ p.timeout / p.interval, p.IsLast n := by
  rcases p.last_or_all (p.timeout / p.interval + 1) with ⟨n, hn, hlast⟩ | hall
  · exact ⟨n, Nat.le_of_lt_succ hn, hlast⟩
  · have hlate : p.timeout < (p.timeout / p.interval + 1) * p.interval := by
      rw [Nat.mul_comm]
      exact Nat.lt_mul_div_succ p.timeout h
    have hin : p.next (p.timeout / p.interval) ≤ p.started + p.timeout :=
      (hall (p.timeout / p.interval) (Nat.lt_succ_self _)).2.1
    have hout := Nat.le_trans (p.add_mul_le_next (p.timeout / p.interval)) hin
    exact absurd (Nat.le_of_add_le_add_left hout) (Nat.not_le.mpr hlate)

section
variable (hpos : 0 < p.interval) (hstarted : p.machine.tick ∣ p.started)
  (hinterval : p.machine.tick ∣ p.interval) (hstep : ∀ n, p.step n = (0, .retry))
include hstarted hinterval hstep

theorem begins_of_instant (n : Nat) : p.begins n = p.started + n * p.interval := by
  have hticks : p.OnTicks := ⟨hstarted, hinterval, fun n => by rw [hstep]; exact Nat.dvd_zero _⟩
  induction n with
  | zero => simp [begins]
  | succ n ih =>
    rw [begins_succ_of_onTicks hticks, ends, ih, hstep, Nat.add_zero, Nat.succ_mul, Nat.add_assoc]

theorem next_of_instant (n : Nat) : p.next n = p.started + (n + 1) * p.interval := by
  rw [next, ends, begins_of_instant hstarted hinterval hstep, hstep, Nat.add_zero, Nat.succ_mul,
    Nat.add_assoc]

include hpos

/-- An attempt is in time even at the deadline itself. -/
theorem next_le_iff_of_instant (n : Nat) :
    p.next n ≤ p.deadline ↔ n < p.timeout / p.interval := by
  rw [next_of_instant hstarted hinterval hstep, deadline, Nat.add_le_add_iff_left,
    ← Nat.le_div_iff_mul_le hpos, Nat.succ_le_iff]

theorem last_of_instant (hcount : p.machine.checked = true →
    p.timeout / p.interval + 1 < 0x100000000) : p.IsLast (p.timeout / p.interval) := by
  have hin := next_le_iff_of_instant hpos hstarted hinterval hstep
  constructor
  · intro k hk
    refine ⟨by rw [hstep], (hin k).mpr hk, ?_⟩
    intro hc
    exact Nat.lt_of_le_of_lt (Nat.succ_le_succ (Nat.succ_le_of_lt hk)) (hcount hc)
  · exact fun h => Nat.lt_irrefl _ ((hin _).mp h.2.1)

theorem history_of_instant (hlast : p.deadline + p.interval ≤ p.machine.last) :
    p.history (p.timeout / p.interval) =
      ⟨(List.range (p.timeout / p.interval + 1)).map fun k => p.started + k * p.interval,
        p.started + p.timeout / p.interval * p.interval,
        .error (.timedOut (.ofNat (p.timeout / p.interval + 1)) p.timeout)⟩ := by
  have hbegins : p.begins = fun k => p.started + k * p.interval :=
    funext (begins_of_instant hstarted hinterval hstep)
  have hlate : p.deadline < p.next (p.timeout / p.interval) := by
    rw [← Nat.not_le, next_le_iff_of_instant hpos hstarted hinterval hstep]
    exact Nat.lt_irrefl _
  have htold : ¬ p.machine.last < p.next (p.timeout / p.interval) := by
    refine Nat.not_lt.mpr (Nat.le_trans ?_ hlast)
    rw [next_of_instant hstarted hinterval hstep, Nat.succ_mul, ← Nat.add_assoc]
    exact Nat.add_le_add_right (Nat.add_le_add_left (Nat.div_mul_le_self _ _) _) _
  simp only [history, hstep, ends, hbegins, if_neg htold, if_pos hlate, Nat.add_zero]

end

/-- An attempt that takes time puts off all later ones; the one at 150 ends in time for another. -/
example : (⟨.simulated, 100, 250, 0, fun n => (if n = 1 then 50 else 0, .retry)⟩ :
    Polling Unit).run 3 = some ⟨[0, 150, 250], 250, .error (.timedOut 3 250)⟩ := rfl

end Polling

end FedTrack
