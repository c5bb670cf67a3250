import FedTrack.Proofs.Table.Order
import FedTrack.Work.Pending

namespace FedTrack.Pending

variable {K : Type} [Key K]

/-- When a key is due. -/
def deadline? (p : Pending K) (key : K) : Option Time := p.deadlines.find? key

/-- Both tables hold the same keys with the same times. -/
def Paired (p : Pending K) : Prop :=
  ∀ key time, p.deadline? key = some time ↔ (time, key) ∈ p.ordered.keys

/-- What is due by `now`, in the order of time and key. -/
def dueBy (p : Pending K) (now : Time) : List (Time × K) := p.ordered.keys.filter (·.1 ≤ now)

theorem paired_empty : Paired (empty : Pending K) := by
  intro key time
  simp [deadline?, empty, Table.mem_keys]

/-! Scheduling. -/

/-- A key that is pending and not later stays as it is, any other is set to the new time. -/
theorem schedule_cases (p : Pending K) (key : K) (time : Time) :
    (∃ old, p.deadline? key = some old ∧ old ≤ time ∧ p.schedule key time = (p, false)) ∨
    ((∀ old, p.deadline? key = some old → time < old) ∧ (p.schedule key time).2 = true ∧
      (∀ k, (p.schedule key time).1.deadline? k = if key = k then some time else p.deadline? k) ∧
      ∀ e, e ∈ (p.schedule key time).1.ordered.keys ↔
        e = (time, key) ∨ e ∈ p.ordered.keys ∧ ∀ old, p.deadline? key = some old → e ≠ (old, key)) := by
  unfold schedule deadline?
  cases hd : p.deadlines.find? key with
  | none =>
    refine Or.inr ⟨nofun, rfl, fun k => Table.find?_insert _ _ _ _, fun e => ?_⟩
    rw [Table.mem_keys_insert]
    simp
  | some old =>
    by_cases hle : old ≤ time
    · exact Or.inl ⟨old, rfl, hle, if_pos hle⟩
    · dsimp only
      rw [if_neg hle]
      refine Or.inr ⟨?_, rfl, fun k => Table.find?_insert _ _ _ _, fun e => ?_⟩
      · intro o ho
        cases ho
        exact Nat.lt_of_not_le hle
      · rw [Table.mem_keys_insert, Table.mem_keys_erase]
        simp [and_comm]

theorem deadline?_schedule (p : Pending K) (key : K) (time : Time) (k : K) :
    (p.schedule key time).1.deadline? k =
      if key = k then some (((p.deadline? key).map (min time)).getD time) else p.deadline? k := by
  rcases p.schedule_cases key time with ⟨old, hold, hle, hs⟩ | ⟨hlt, -, hd, -⟩
  · rw [hs]
    split
    · rename_i hk
      subst hk
      simp [hold, Nat.min_eq_right hle]
    · rfl
  · rw [hd]
    cases hold : p.deadline? key with
    | none => rfl
    | some old => simp [Nat.min_eq_left (Nat.le_of_lt (hlt old hold))]

/-- Nothing has changed unless the time was set or moved forward. -/
theorem schedule_of_unchanged {p : Pending K} {key : K} {time : Time}
    (h : (p.schedule key time).2 = false) : (p.schedule key time).1 = p := by
  rcases p.schedule_cases key time with ⟨old, -, -, hs⟩ | ⟨-, hs, -⟩
  · rw [hs]
  · rw [hs] at h
    cases h

theorem Paired.schedule {p : Pending K} (h : p.Paired) (key : K) (time : Time) :
    (p.schedule key time).1.Paired := by
  rcases p.schedule_cases key time with ⟨old, -, -, hs⟩ | ⟨-, -, hd, ho⟩
  · rw [hs]
    exact h
  · intro k t
    rw [hd, ho, ← h k t]
    by_cases hk : key = k
    · subst hk
      rw [if_pos rfl]
      constructor
      · intro he
        cases he
        exact Or.inl rfl
      · rintro (he | ⟨hold, hne⟩)
        · cases he
          rfl
        · exact absurd rfl (hne t hold)
    · have hne : ∀ t', (t, k) ≠ (t', key) := fun t' he => hk (congrArg Prod.snd he).symm
      rw [if_neg hk]
      simp [hne]

/-! Taking what is due. -/

theorem lt_iff {a b : Time × K} :
    Key.lt a b = true ↔ a.1 < b.1 ∨ a.1 = b.1 ∧ Key.lt a.2 b.2 = true := by
  simp [Key.lt]

theorem le_of_lt {a b : Time × K} (h : Key.lt a b = true) : a.1 ≤ b.1 := by
  rcases lt_iff.mp h with hlt | ⟨he, -⟩
  · exact Nat.le_of_lt hlt
  · exact Nat.le_of_eq he

theorem first?_none {p : Pending K} (h : p.first? = none) : p.ordered.keys = [] :=
  List.head?_eq_none_iff.mp h

theorem first?_some {p : Pending K} {e : Time × K} (h : p.first? = some e) :
    ∃ rest, p.ordered.keys = e :: rest ∧ (∀ e' ∈ rest, e.1 ≤ e'.1) ∧
      (p.drop e).ordered.keys = rest := by
  obtain ⟨rest, hk⟩ := List.head?_eq_some_iff.mp h
  have hs := p.ordered.pairwise_keys
  rw [hk] at hs
  exact ⟨rest, hk, fun e' he' => le_of_lt (List.rel_of_pairwise_cons hs he'),
    Table.keys_erase_head hk⟩

theorem nextDeadline_le {p : Pending K} (h : p.Paired) {key : K} {time : Time}
    (hd : p.deadline? key = some time) : ∃ next, p.nextDeadline = some next ∧ next ≤ time := by
  have hmem := (h key time).mp hd
  unfold nextDeadline
  cases hf : p.first? with
  | none =>
    rw [first?_none hf] at hmem
    cases hmem
  | some e =>
    obtain ⟨rest, hk, hle, -⟩ := first?_some hf
    refine ⟨e.1, rfl, ?_⟩
    rw [hk] at hmem
    rcases List.mem_cons.mp hmem with rfl | he
    · exact Nat.le_refl _
    · exact hle _ he

theorem nextDeadline_mem {p : Pending K} (h : p.Paired) {next : Time}
    (hn : p.nextDeadline = some next) : ∃ key, p.deadline? key = some next := by
  obtain ⟨e, hf, rfl⟩ := Option.map_eq_some_iff.mp hn
  obtain ⟨rest, hk, -, -⟩ := first?_some hf
  refine ⟨e.2, (h e.2 e.1).mpr ?_⟩
  rw [hk]
  exact List.mem_cons_self

theorem popUpTo_eq (now : Time) {fuel : Nat} {p : Pending K} (hfuel : p.ordered.size ≤ fuel) :
    (popUpTo now fuel p).2 = (p.dueBy now).map Prod.snd ∧
      (popUpTo now fuel p).1.ordered.keys = p.ordered.keys.filter (now < ·.1) ∧
      ∀ key, (popUpTo now fuel p).1.deadline? key =
        if key ∈ (p.dueBy now).map Prod.snd then none else p.deadline? key := by
  have hlen : p.ordered.size = p.ordered.keys.length := (List.length_map _).symm
  induction fuel generalizing p with
  | zero =>
    have hk : p.ordered.keys = [] := List.length_eq_zero_iff.mp (by omega)
    simp [popUpTo, dueBy, hk]
  | succ fuel ih =>
    cases hf : p.first? with
    | none => simp [popUpTo, dueBy, hf, first?_none hf]
    | some e =>
      obtain ⟨rest, hk, hle, hdrop⟩ := first?_some hf
      by_cases hnow : e.1 ≤ now
      · have hsize : (p.drop e).ordered.size = rest.length := by
          rw [← hdrop]
          exact (List.length_map _).symm
        rw [hk] at hlen
        obtain ⟨ih1, ih2, ih3⟩ := ih (p := p.drop e) (by simp at hlen; omega) (by rw [hdrop]; exact hsize)
        have hdue : p.dueBy now = e :: (p.drop e).dueBy now := by
          simp [dueBy, hk, hdrop, hnow]
        refine ⟨?_, ?_, ?_⟩
        · simp [popUpTo, hf, hnow, ih1, hdue]
        · simp [popUpTo, hf, hnow, ih2, hk, hdrop]
        · intro key
          have hd : (p.drop e).deadline? key = if e.2 = key then none else p.deadline? key :=
            Table.find?_erase _ _ _
          simp only [popUpTo, hf, hnow, if_true, ih3, hd, hdue, List.map_cons, List.mem_cons]
          by_cases hkey : key = e.2
          · simp [hkey]
          · have hne : e.2 ≠ key := fun h => hkey h.symm
            simp only [if_neg hne, hkey, false_or]
      · have hall : ∀ e' ∈ p.ordered.keys, ¬ e'.1 ≤ now := by
          rw [hk]
          intro e' he'
          rcases List.mem_cons.mp he' with rfl | he'
          · exact hnow
          · exact fun h => hnow (Nat.le_trans (hle e' he') h)
        have hdue : p.dueBy now = [] := by
          rw [dueBy, List.filter_eq_nil_iff]
          intro e' he'
          simpa using hall e' he'
        have hrest : p.ordered.keys.filter (now < ·.1) = p.ordered.keys := by
          rw [List.filter_eq_self]
          intro e' he'
          simpa using hall e' he'
        simp [popUpTo, hf, hnow, hdue, hrest]

theorem popDue_snd (p : Pending K) (now : Time) : (p.popDue now).2 = (p.dueBy now).map Prod.snd :=
  (popUpTo_eq now (Nat.le_refl _)).1

theorem keys_popDue (p : Pending K) (now : Time) :
    (p.popDue now).1.ordered.keys = p.ordered.keys.filter (now < ·.1) :=
  (popUpTo_eq now (Nat.le_refl _)).2.1

theorem deadline?_popDue (p : Pending K) (now : Time) (key : K) :
    (p.popDue now).1.deadline? key =
      if key ∈ (p.dueBy now).map Prod.snd then none else p.deadline? key :=
  (popUpTo_eq now (Nat.le_refl _)).2.2 key

theorem pairwise_dueBy (p : Pending K) (now : Time) :
    (p.dueBy now).Pairwise fun a b => Key.lt a b = true :=
  p.ordered.pairwise_keys.filter _

theorem Paired.mem_dueBy {p : Pending K} (h : p.Paired) {now time : Time} {key : K} :
    (time, key) ∈ p.dueBy now ↔ p.deadline? key = some time ∧ time ≤ now := by
  rw [dueBy, List.mem_filter, ← h key time]
  simp

theorem Paired.mem_dueBy_keys {p : Pending K} (h : p.Paired) {now : Time} {key : K} :
    key ∈ (p.dueBy now).map Prod.snd ↔ ∃ time, p.deadline? key = some time ∧ time ≤ now := by
  simp [h.mem_dueBy]

theorem Paired.popDue {p : Pending K} (h : p.Paired) (now : Time) : (p.popDue now).1.Paired := by
  intro key time
  rw [deadline?_popDue, keys_popDue, List.mem_filter, ← h key time]
  split
  · rename_i hdue
    obtain ⟨t, hd, hle⟩ := h.mem_dueBy_keys.mp hdue
    constructor
    · intro he
      cases he
    · rintro ⟨ht, hlt⟩
      rw [hd] at ht
      cases ht
      exact absurd hle (by simpa using hlt)
  · rename_i hdue
    constructor
    · intro hd
      refine ⟨hd, ?_⟩
      have hnot : ¬ time ≤ now := fun hle => hdue (h.mem_dueBy_keys.mpr ⟨time, hd, hle⟩)
      simpa using hnot
    · exact fun hd => hd.1

/-- No key is in the ordered table with two times. -/
theorem Paired.nodup_ordered {p : Pending K} (h : p.Paired) :
    (p.ordered.keys.map Prod.snd).Nodup := by
  rw [List.Nodup, List.pairwise_map]
  refine p.ordered.pairwise_keys.imp_of_mem ?_
  rintro ⟨s, a⟩ ⟨t, b⟩ hs ht hlt hab
  dsimp only at hab
  subst hab
  have hs' := (h a s).mpr hs
  rw [(h a t).mpr ht] at hs'
  cases hs'
  exact Key.ne_of_lt hlt rfl

/-- No key is due twice. -/
theorem Paired.nodup_dueBy {p : Pending K} (h : p.Paired) (now : Time) :
    ((p.dueBy now).map Prod.snd).Nodup :=
  h.nodup_ordered.sublist (List.filter_sublist.map _)

end FedTrack.Pending
