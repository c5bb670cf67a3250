import FedTrack.Table.Key

namespace FedTrack.Assoc

variable {α β : Type} [Key α]

def Sorted : List (α × β) → Prop
  | [] => True
  | (k, _) :: rest => (∀ e ∈ rest, Key.lt k e.1 = true) ∧ Sorted rest

def find? : List (α × β) → α → Option β
  | [], _ => none
  | (k, v) :: rest, a => if k = a then some v else find? rest a

def insert : List (α × β) → α → β → List (α × β)
  | [], a, b => [(a, b)]
  | (k, v) :: rest, a, b =>
    if k = a then (a, b) :: rest
    else if Key.lt a k then (a, b) :: (k, v) :: rest
    else (k, v) :: insert rest a b

def erase : List (α × β) → α → List (α × β)
  | [], _ => []
  | (k, v) :: rest, a => if k = a then erase rest a else (k, v) :: erase rest a

theorem mem_insert {l : List (α × β)} {a : α} {b : β} {e : α × β}
    (h : e ∈ insert l a b) : e = (a, b) ∨ e ∈ l := by
  induction l with
  | nil => simpa [insert] using h
  | cons x rest ih =>
    obtain ⟨k, v⟩ := x
    simp only [insert] at h
    split at h
    · rcases List.mem_cons.mp h with h | h
      · exact Or.inl h
      · exact Or.inr (List.mem_cons_of_mem _ h)
    · split at h
      · rcases List.mem_cons.mp h with h | h
        · exact Or.inl h
        · exact Or.inr h
      · rcases List.mem_cons.mp h with h | h
        · exact Or.inr (h ▸ List.mem_cons_self)
        · rcases ih h with h | h
          · exact Or.inl h
          · exact Or.inr (List.mem_cons_of_mem _ h)

theorem mem_erase {l : List (α × β)} {a : α} {e : α × β} (h : e ∈ erase l a) : e ∈ l := by
  induction l with
  | nil => simp [erase] at h
  | cons x rest ih =>
    obtain ⟨k, v⟩ := x
    simp only [erase] at h
    split at h
    · exact List.mem_cons_of_mem _ (ih h)
    · rcases List.mem_cons.mp h with h | h
      · exact h ▸ List.mem_cons_self
      · exact List.mem_cons_of_mem _ (ih h)

theorem sorted_insert {l : List (α × β)} (h : Sorted l) (a : α) (b : β) :
    Sorted (insert l a b) := by
  induction l with
  | nil => simp [insert, Sorted]
  | cons x rest ih =>
    obtain ⟨k, v⟩ := x
    obtain ⟨hk, hr⟩ := h
    simp only [insert]
    split
    · rename_i he
      subst he
      exact ⟨hk, hr⟩
    · rename_i hne
      split
      · rename_i hlt
        refine ⟨?_, hk, hr⟩
        intro e he
        rcases List.mem_cons.mp he with he | he
        · exact he ▸ hlt
        · exact Key.trans hlt (hk e he)
      · rename_i hnlt
        refine ⟨?_, ih hr⟩
        intro e he
        rcases mem_insert he with he | he
        · subst he
          rcases Key.total k a with h | h | h
          · exact h
          · exact absurd h hne
          · exact absurd h hnlt
        · exact hk e he

theorem sorted_erase {l : List (α × β)} (h : Sorted l) (a : α) : Sorted (erase l a) := by
  induction l with
  | nil => simp [erase, Sorted]
  | cons x rest ih =>
    obtain ⟨k, v⟩ := x
    obtain ⟨hk, hr⟩ := h
    simp only [erase]
    split
    · exact ih hr
    · exact ⟨fun e he => hk e (mem_erase he), ih hr⟩

theorem find?_insert (l : List (α × β)) (a : α) (b : β) (c : α) :
    find? (insert l a b) c = if a = c then some b else find? l c := by
  induction l with
  | nil => simp [insert, find?]
  | cons x rest ih =>
    obtain ⟨k, v⟩ := x
    simp only [insert]
    split
    · rename_i he
      subst he
      by_cases hc : k = c <;> simp [find?, hc]
    · rename_i hne
      split
      · simp [find?]
      · simp only [find?, ih]
        by_cases hc : k = c
        · have : a ≠ c := fun h => hne (hc.trans h.symm)
          simp [hc, this]
        · simp [hc]

theorem find?_eq_none_of_lt {l : List (α × β)} {a : α}
    (h : ∀ e ∈ l, Key.lt a e.1 = true) : find? l a = none := by
  induction l with
  | nil => rfl
  | cons x rest ih =>
    obtain ⟨k, v⟩ := x
    have hk : k ≠ a := fun he => Key.ne_of_lt (h _ List.mem_cons_self) he.symm
    simp only [find?, if_neg hk]
    exact ih fun e he => h e (List.mem_cons_of_mem _ he)

theorem find?_erase (l : List (α × β)) (a c : α) :
    find? (erase l a) c = if a = c then none else find? l c := by
  induction l with
  | nil => simp [erase, find?]
  | cons x rest ih =>
    obtain ⟨k, v⟩ := x
    simp only [erase]
    split
    · rename_i he
      subst he
      rw [ih]
      by_cases hc : k = c <;> simp [find?, hc]
    · rename_i hne
      simp only [find?, ih]
      by_cases hc : k = c
      · have : a ≠ c := fun h => hne (hc.trans h.symm)
        simp [hc, this]
      · simp [hc]

theorem find?_eq_some {l : List (α × β)} (h : Sorted l) {a : α} {b : β} :
    find? l a = some b ↔ (a, b) ∈ l := by
  induction l with
  | nil => simp [find?]
  | cons x rest ih =>
    obtain ⟨k, v⟩ := x
    obtain ⟨hk, hr⟩ := h
    simp only [find?, List.mem_cons, Prod.mk.injEq]
    split
    · rename_i he
      subst he
      constructor
      · intro h
        exact Or.inl ⟨rfl, (Option.some.inj h).symm⟩
      · rintro (⟨-, rfl⟩ | h)
        · rfl
        · exact absurd rfl (Key.ne_of_lt (hk _ h))
    · rename_i hne
      rw [ih hr]
      constructor
      · exact Or.inr
      · rintro (⟨h, -⟩ | h)
        · exact absurd h.symm hne
        · exact h

/-- Sorted entries are determined by what they map each key to. -/
theorem ext {l m : List (α × β)} (hl : Sorted l) (hm : Sorted m)
    (h : ∀ a, find? l a = find? m a) : l = m := by
  induction l generalizing m with
  | nil =>
    cases m with
    | nil => rfl
    | cons y _ =>
      have := h y.1
      simp [find?] at this
  | cons x rest ih =>
    obtain ⟨k, v⟩ := x
    cases m with
    | nil =>
      have := h k
      simp [find?] at this
    | cons y rest' =>
      obtain ⟨k', v'⟩ := y
      have hkk : k = k' := by
        rcases Key.total k k' with hlt | he | hlt
        · have := h k
          rw [find?_eq_none_of_lt (l := (k', v') :: rest')] at this
          · simp [find?] at this
          · intro e he
            rcases List.mem_cons.mp he with he | he
            · exact he ▸ hlt
            · exact Key.trans hlt (hm.1 e he)
        · exact he
        · have := h k'
          rw [find?_eq_none_of_lt (l := (k, v) :: rest)] at this
          · simp [find?] at this
          · intro e he
            rcases List.mem_cons.mp he with he | he
            · exact he ▸ hlt
            · exact Key.trans hlt (hl.1 e he)
      subst hkk
      have hv : v = v' := by
        have := h k
        simpa [find?] using this
      subst hv
      have hrest : rest = rest' := by
        apply ih hl.2 hm.2
        intro a
        by_cases ha : k = a
        · subst ha
          rw [find?_eq_none_of_lt hl.1, find?_eq_none_of_lt hm.1]
        · have := h a
          simpa [find?, ha] using this
      rw [hrest]

end FedTrack.Assoc
