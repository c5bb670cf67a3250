import FedTrack.Table.Basic

namespace FedTrack.Key

variable {α : Type} [Key α] {a b c : α}

theorem lt_of_not_lt_of_ne (h : lt b a = false) (hne : a ≠ b) : lt a b = true := by
  rcases total a b with hab | rfl | hba
  · exact hab
  · exact absurd rfl hne
  · rw [h] at hba
    cases hba

theorem eq_of_not_lt (hab : lt a b = false) (hba : lt b a = false) : a = b := by
  by_cases he : a = b
  · exact he
  · rw [lt_of_not_lt_of_ne hba he] at hab
    cases hab

theorem not_lt_trans (hba : lt b a = false) (hcb : lt c b = false) : lt c a = false := by
  by_cases he : a = b
  · rw [he]
    exact hcb
  · cases hca : lt c a with
    | false => rfl
    | true =>
      rw [trans hca (lt_of_not_lt_of_ne hba he)] at hcb
      cases hcb

/-- What is sorted by a key comes in the order of the keys. -/
theorem pairwise_mergeSort {β : Type} (f : β → α) (l : List β) :
    (l.mergeSort fun x y => !lt (f y) (f x)).Pairwise fun x y => lt (f y) (f x) = false := by
  have hp : (l.mergeSort fun x y => !lt (f y) (f x)).Pairwise fun x y =>
      (!lt (f y) (f x)) = true := by
    apply List.pairwise_mergeSort
    · intro x y z hxy hyz
      rw [Bool.not_eq_true'] at hxy hyz ⊢
      exact not_lt_trans hxy hyz
    · intro x y
      cases hxy : lt (f x) (f y) with
      | false => simp
      | true => simp [asymm hxy]
  exact hp.imp fun h => by simpa using h

end FedTrack.Key

namespace FedTrack.Table

variable {α β : Type} [Key α]

theorem mem_keys {t : Table α β} {a : α} : a ∈ t.keys ↔ ∃ b, t.find? a = some b := by
  simp [keys, find?_eq_some]

theorem mem_keys_insert {t : Table α β} {a b : α} {v : β} :
    a ∈ (t.insert b v).keys ↔ a = b ∨ a ∈ t.keys := by
  by_cases h : b = a
  · simp [mem_keys, h]
  · have hne : a ≠ b := fun he => h he.symm
    simp [mem_keys, h, hne]

theorem mem_keys_erase {t : Table α β} {a b : α} : a ∈ (t.erase b).keys ↔ a ≠ b ∧ a ∈ t.keys := by
  by_cases h : b = a
  · simp [mem_keys, h]
  · have hne : a ≠ b := fun he => h he.symm
    simp [mem_keys, h, hne]

theorem pairwise_of_sorted {l : List (α × β)} (h : Assoc.Sorted l) :
    (l.map Prod.fst).Pairwise fun a b => Key.lt a b = true := by
  induction l with
  | nil => exact List.Pairwise.nil
  | cons e rest ih =>
    obtain ⟨k, v⟩ := e
    obtain ⟨hk, hr⟩ := h
    refine List.Pairwise.cons ?_ (ih hr)
    intro a ha
    obtain ⟨e, he, rfl⟩ := List.mem_map.mp ha
    exact hk e he

theorem sorted_of_pairwise {l : List (α × β)} (h : l.Pairwise fun a b => Key.lt a.1 b.1 = true) :
    Assoc.Sorted l := by
  induction h with
  | nil => trivial
  | cons hk _ ih => exact ⟨hk, ih⟩

theorem pairwise_keys (t : Table α β) : t.keys.Pairwise fun a b => Key.lt a b = true :=
  pairwise_of_sorted t.sorted

theorem erase_of_lt {l : List (α × β)} {a : α} (h : ∀ e ∈ l, Key.lt a e.1 = true) :
    Assoc.erase l a = l := by
  induction l with
  | nil => rfl
  | cons e rest ih =>
    have hne : e.1 ≠ a := (Key.ne_of_lt (h e List.mem_cons_self)).symm
    have hrest := ih fun e he => h e (List.mem_cons_of_mem _ he)
    simp only [Assoc.erase, if_neg hne, hrest]

/-- Without its first key a table has all others. -/
theorem keys_erase_head {t : Table α β} {a : α} {rest : List α} (h : t.keys = a :: rest) :
    (t.erase a).keys = rest := by
  obtain ⟨entries, hs⟩ := t
  cases entries with
  | nil => cases h
  | cons e tail =>
    obtain ⟨k, v⟩ := e
    simp only [keys, List.map_cons, List.cons.injEq] at h
    obtain ⟨rfl, rfl⟩ := h
    simp only [keys, erase, Assoc.erase, if_pos, erase_of_lt hs.1]

end FedTrack.Table
