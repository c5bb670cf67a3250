import FedTrack.Proofs.Work.Lawful

/-! Until it is handed over, a key that was called for stays with the delivery loop. -/

namespace FedTrack.Delivery

variable {K : Type} [Key K] {d d' : Delivery K} {key : K} {c : Asked}

/-- The key called for is pending, or has been found due and is still in hand. -/
def Waits (d : Delivery K) (key : K) (c : Asked) : Prop :=
  c ∈ Deed.batch key d.log ∨ key ∈ d.inHand

namespace Waits

theorem ask (h : d.Waits key c) (call : DeliveryCall K) : (d.step (.ask call)).Waits key c := by
  refine h.imp_left fun hc => ?_
  simp only [step, Deed.batch_asked]
  split
  · exact List.mem_cons_of_mem _ hc
  · exact hc

/-- With nothing in hand the key is pending. -/
theorem mem_batch (h : d.Waits key c) (hnone : d.inHand = []) : c ∈ Deed.batch key d.log := by
  refine h.resolve_right ?_
  rw [hnone]
  exact nofun

/-- Once in hand a key waits until it is handed over. -/
theorem looped (h : d.Waits key c) (hl : Looped d d') :
    d'.Waits key c ∨ d.inHand.head? = some key := by
  cases hl with
  | idle => exact Or.inl h
  | armed ht => exact Or.inl (Or.inl (h.mem_batch (by simp only [inHand, ht])))
  | noticed ht => exact Or.inl (Or.inl (h.mem_batch (by simp only [inHand, ht])))
  | drained ht => exact Or.inl (Or.inl (h.mem_batch (by simp only [inHand, ht])))
  | found ht =>
    left
    have hc : c ∈ Deed.batch key d.log := h.mem_batch (by simp only [inHand, ht])
    by_cases hdue : key ∈ (d.deliverer.pending.dueBy d.now).map Prod.snd
    · exact Or.inr hdue
    · exact Or.inl (by rw [Deed.batch_found, if_neg hdue]; exact hc)
  | handed ht =>
    rcases h with hc | hk
    · exact Or.inl (Or.inl hc)
    · simp only [inHand, ht] at hk ⊢
      rcases List.mem_cons.mp hk with rfl | hk
      · exact Or.inr rfl
      · exact Or.inl (Or.inr hk)

theorem fire (h : d.Waits key c) : (d.step .fire).Waits key c := by
  rcases h.looped d.looped_step_fire with h' | hk
  · exact h'
  · have hs : d.step .fire = d := by
      simp only [step]
      split
      · rename_i ht
        simp only [inHand, ht] at hk
        cases hk
      · rfl
    rw [hs]
    exact h

theorem pass (h : d.Waits key c) (span : Span) : (d.step (.pass span)).Waits key c := by
  simp only [step]
  split <;> exact h

theorem start (h : d.Waits key c) : (d.step .start).Waits key c := by
  cases ht : d.task with
  | absent =>
    have hc : c ∈ Deed.batch key d.log := h.mem_batch (by simp only [inHand, ht])
    simp only [step, ht]
    exact Or.inl hc
  | _ =>
    simp only [step, ht]
    exact h

end Waits

/-- The call was made of a running loop and is waited for in time. -/
structure Awaits (d : Delivery K) (key : K) (c : Asked) : Prop where
  running : ∃ loop, d.task = .running loop
  begun : d.begun ≤ c.made
  made : c.made ≤ d.now
  due : d.now ≤ c.due d.begun
  waits : d.Waits key c

namespace Awaits

theorem now_le (h : d.Awaits key c) : d.now ≤ max c.deadline c.made := by
  have hdue := h.due
  rw [Asked.due, Nat.max_eq_left h.begun] at hdue
  exact hdue

theorem ask (h : d.Awaits key c) (call : DeliveryCall K) : (d.step (.ask call)).Awaits key c :=
  { h with waits := h.waits.ask call }

theorem looped (h : d.Awaits key c) (hl : Looped d d') (hw : d'.Waits key c) : d'.Awaits key c where
  running := by
    rcases hl.task with ht | ht
    · rw [ht]
      exact h.running
    · exact ht
  begun := by
    rw [hl.begun]
    exact h.begun
  made := by
    rw [hl.now]
    exact h.made
  due := by
    rw [hl.now, hl.begun]
    exact h.due
  waits := hw

theorem pass (h : d.Awaits key c) (hl : d.Lawful) (span : Span) :
    (d.step (.pass span)).Awaits key c := by
  have hl' := hl.pass span
  by_cases hp : (d.atRest && d.alarm?.all (d.now + span ≤ ·)) = true
  · have hs : d.step (.pass span) = { d with now := d.now + span } := by simp only [step, if_pos hp]
    rw [hs] at hl' ⊢
    obtain ⟨loop, ht⟩ := h.running
    -- the loop rests, so nothing is in hand
    obtain ⟨-, rfl, -, -⟩ := hl.rested ht (Bool.and_eq_true_iff.mp hp).1
    have hc : c ∈ Deed.batch key d.log := h.waits.mem_batch (by simp only [inHand, ht])
    exact { h with
      made := Nat.le_trans h.made (Nat.le_add_right _ _)
      due := hl'.punctual _ ht key c hc }
  · have hs : d.step (.pass span) = d := by simp only [step, if_neg hp]
    rw [hs]
    exact h

/-- What is asked of a running loop is awaited at once. -/
theorem of_ask (hl : d.Lawful) {loop : DeliveryLoop K} (ht : d.task = .running loop) (key : K)
    (delay : Span) : (d.step (.ask (.after key delay))).Awaits key ⟨d.now + delay, d.now⟩ where
  running := ⟨loop, ht⟩
  begun := hl.begun
  made := Nat.le_refl _
  due := Nat.le_trans (Nat.le_max_left _ _) (Nat.le_max_right _ _)
  waits := Or.inl (by simp [step, DeliveryCall.key, DeliveryCall.deadline])

end Awaits

theorem Lawful.pending_of_batch (h : d.Lawful) (hc : c ∈ Deed.batch key d.log) :
    (d.deliverer.pending.deadline? key).isSome = true := by
  obtain ⟨deadline, he, -⟩ := Deed.earliest_le hc
  rw [h.deadlines, he]
  rfl

end FedTrack.Delivery
