import FedTrack.Proofs.Table.Lookup
import FedTrack.Proofs.Work.Pending
import Mathlib.Data.List.Nodup
import Mathlib.Data.Prod.Basic

namespace FedTrack

inductive PendingCall (K : Type)
  | schedule (key : K) (time : Time)
  | popDue (now : Time)

namespace Pending

variable {K : Type} [Key K]

def act (p : Pending K) : PendingCall K → Pending K
  | .schedule key time => (p.schedule key time).1
  | .popDue now => (p.popDue now).1

def run (p : Pending K) (calls : List (PendingCall K)) : Pending K := calls.foldl act p

theorem Paired.act {p : Pending K} (h : p.Paired) (c : PendingCall K) : (p.act c).Paired := by
  cases c with
  | schedule key time => exact h.schedule key time
  | popDue now => exact h.popDue now

theorem Paired.run {p : Pending K} (h : p.Paired) (calls : List (PendingCall K)) :
    (p.run calls).Paired := by
  induction calls generalizing p with
  | nil => exact h
  | cons c rest ih => exact ih (h.act c)

/-- What is paired is the same list of keys and times, but for its order. -/
theorem Paired.perm {p : Pending K} (h : p.Paired) :
    p.deadlines.entries.Perm (p.ordered.keys.map Prod.swap) := by
  have hdeadlines : p.deadlines.entries.Nodup := List.Nodup.of_map _ p.deadlines.nodup_keys
  have hordered : (p.ordered.keys.map Prod.swap).Nodup :=
    p.ordered.nodup_keys.map Prod.swap_injective
  rw [List.perm_ext_iff_of_nodup hdeadlines hordered]
  rintro ⟨key, time⟩
  have hmem : (key, time) ∈ p.ordered.keys.map Prod.swap ↔ (time, key) ∈ p.ordered.keys := by
    simp
  rw [hmem, ← h key time, ← Table.find?_eq_some]
  rfl

/-- A call for a key tells whether it was not pending, or its time has moved forward. -/
theorem schedule_eq_true_iff (p : Pending K) (key : K) (time : Time) :
    (p.schedule key time).2 = true ↔ p.deadline? key = none ∨ ∃ old new,
      p.deadline? key = some old ∧ (p.schedule key time).1.deadline? key = some new ∧
        new < old := by
  rcases p.schedule_cases key time with ⟨old, hold, -, hs⟩ | ⟨hlt, hs, hd, -⟩
  · simp [hs, hold]
  · refine iff_of_true hs ?_
    cases hold : p.deadline? key with
    | none => exact Or.inl rfl
    | some old =>
      refine Or.inr ⟨old, time, rfl, ?_, hlt old hold⟩
      rw [hd, if_pos rfl]

/-- Whatever was scheduled and taken so far, the two tables hold the same keys with the same times,
and each key once. To schedule a key leaves the earlier of its time and the new one, changes no
other key, and tells whether the key was not pending or its time has moved forward. What is taken
as due are the keys with a time up to now, in the order of time and key, and no other key goes. -/
theorem pending_stays_paired (calls : List (PendingCall K)) :
    let p := empty.run calls
    (p.deadlines.entries.Perm (p.ordered.keys.map Prod.swap) ∧
      (p.ordered.keys.map Prod.snd).Nodup) ∧
    (∀ key time, let z := p.schedule key time
      z.1.deadline? key = some (((p.deadline? key).map (min time)).getD time) ∧
      (∀ other, other ≠ key → z.1.deadline? other = p.deadline? other) ∧
      (z.2 = true ↔ p.deadline? key = none ∨ ∃ old new,
        p.deadline? key = some old ∧ z.1.deadline? key = some new ∧ new < old)) ∧
    ∀ now, let z := p.popDue now
      ∃ due : List (Time × K), z.2 = due.map Prod.snd ∧
        (∀ key time, (time, key) ∈ due ↔ p.deadline? key = some time ∧ time ≤ now) ∧
        due.Pairwise (fun a b => a.1 < b.1 ∨ a.1 = b.1 ∧ Key.lt a.2 b.2 = true) ∧
        z.2.Nodup ∧
        ∀ key, z.1.deadline? key = if key ∈ z.2 then none else p.deadline? key := by
  intro p
  have h : p.Paired := paired_empty.run calls
  refine ⟨⟨h.perm, h.nodup_ordered⟩, ?_, ?_⟩
  · intro key time
    refine ⟨?_, ?_, p.schedule_eq_true_iff key time⟩
    · rw [deadline?_schedule, if_pos rfl]
    · intro other hother
      rw [deadline?_schedule, if_neg (Ne.symm hother)]
  · intro now
    refine ⟨p.dueBy now, p.popDue_snd now, fun key time => h.mem_dueBy, ?_, ?_, ?_⟩
    · exact (p.pairwise_dueBy now).imp lt_iff.mp
    · rw [popDue_snd]
      exact h.nodup_dueBy now
    · intro key
      rw [popDue_snd]
      exact p.deadline?_popDue now key

/-- A key moved forward is due once, among those of the same time in the order of the keys. -/
example :
    let p := (empty : Pending Nat).run [.schedule 1 5, .schedule 2 3, .schedule 1 3, .schedule 2 9]
    (p.popDue 3).2 = [1, 2] ∧ ((p.popDue 3).1.popDue 9).2 = [] := by decide

end Pending

end FedTrack
