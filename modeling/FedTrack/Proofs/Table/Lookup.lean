import FedTrack.Table.Basic
import Mathlib.Data.List.Induction

namespace FedTrack.Table

variable {α β : Type}

/-- No key comes with two values. -/
def Unambiguous (l : List (α × β)) : Prop := ∀ a b b', (a, b) ∈ l → (a, b') ∈ l → b = b'

theorem unambiguous_of_nodup {l : List (α × β)} (h : (l.map Prod.fst).Nodup) : Unambiguous l := by
  induction l with
  | nil =>
    intro a b b' hb
    simp at hb
  | cons e rest ih =>
    obtain ⟨k, v⟩ := e
    simp only [List.map_cons, List.nodup_cons] at h
    obtain ⟨hk, hrest⟩ := h
    have fresh (b : β) : (k, b) ∉ rest := fun hm => hk (List.mem_map_of_mem hm)
    intro a b b' hb hb'
    rcases List.mem_cons.mp hb with hb | hb
    · cases hb
      rcases List.mem_cons.mp hb' with hb' | hb'
      · cases hb'
        rfl
      · exact absurd hb' (fresh b')
    · rcases List.mem_cons.mp hb' with hb' | hb'
      · cases hb'
        exact absurd hb (fresh b)
      · exact ih hrest a b b' hb hb'

variable [Key α]

/-- After a list of insertions a key has one of the values inserted for it, or its old one. -/
theorem find?_foldl_insert (l : List (α × β)) (t : Table α β) (a : α) :
    ((∀ b, (a, b) ∉ l) ∧ (l.foldl (fun t e => t.insert e.1 e.2) t).find? a = t.find? a) ∨
    ∃ b, (a, b) ∈ l ∧ (l.foldl (fun t e => t.insert e.1 e.2) t).find? a = some b := by
  induction l generalizing t with
  | nil => exact Or.inl ⟨by simp, rfl⟩
  | cons e rest ih =>
    obtain ⟨k, v⟩ := e
    simp only [List.foldl_cons]
    rcases ih (t.insert k v) with ⟨hnone, hf⟩ | ⟨b, hb, hf⟩
    · rw [hf, find?_insert]
      by_cases hk : k = a
      · subst hk
        exact Or.inr ⟨v, List.mem_cons_self, if_pos rfl⟩
      · refine Or.inl ⟨?_, if_neg hk⟩
        intro b hb
        rcases List.mem_cons.mp hb with hb | hb
        · cases hb
          exact hk rfl
        · exact hnone b hb
    · exact Or.inr ⟨b, List.mem_cons_of_mem _ hb, hf⟩

/-- Of the values inserted for a key the last one counts. -/
theorem find?_foldl_insertIf (f : β → α) (p : β → Bool) (l : List β) (t : Table α β) (a : α) :
    (l.foldl (fun t b => if p b then t.insert (f b) b else t) t).find? a =
      ((l.filter fun b => p b ∧ f b = a).getLast?).or (t.find? a) := by
  induction l using List.reverseRecOn with
  | nil => simp
  | append_singleton l b ih =>
    rw [List.foldl_append, List.filter_append]
    by_cases hb : p b = true
    · by_cases ha : f b = a
      · subst ha
        simp [hb]
      · simp [hb, ha, ih]
    · simp [hb, ih]

theorem find?_ofList {l : List (α × β)} (h : Unambiguous l) {a : α} {b : β} :
    (ofList l).find? a = some b ↔ (a, b) ∈ l := by
  rcases find?_foldl_insert l empty a with ⟨hnone, hf⟩ | ⟨b', hb', hf⟩
  · have hn : (ofList l).find? a = none := hf
    rw [hn]
    constructor
    · intro hs
      cases hs
    · intro hb
      exact absurd hb (hnone b)
  · have hs : (ofList l).find? a = some b' := hf
    rw [hs]
    constructor
    · intro he
      cases he
      exact hb'
    · intro hb
      rw [h a b b' hb hb']

/-- Two lists with the same pairs, none of them ambiguous, make the same table. -/
theorem ofList_congr {l m : List (α × β)} (hl : Unambiguous l) (h : ∀ e, e ∈ l ↔ e ∈ m) :
    ofList l = ofList m := by
  have hm : Unambiguous m := fun a b b' hb hb' => hl a b b' ((h _).mpr hb) ((h _).mpr hb')
  apply ext
  intro a
  apply Option.ext
  intro b
  rw [find?_ofList hl, find?_ofList hm]
  exact h (a, b)

theorem nodup_entries {l : List (α × β)} (h : Assoc.Sorted l) : (l.map Prod.fst).Nodup := by
  induction l with
  | nil => simp
  | cons e rest ih =>
    obtain ⟨k, v⟩ := e
    obtain ⟨hk, hr⟩ := h
    simp only [List.map_cons, List.nodup_cons]
    refine ⟨?_, ih hr⟩
    intro hm
    obtain ⟨e, he, heq⟩ := List.mem_map.mp hm
    exact Key.ne_of_lt (hk e he) heq.symm

theorem nodup_keys (t : Table α β) : t.keys.Nodup := nodup_entries t.sorted

/-- A table is made of its entries. -/
theorem ofList_entries (t : Table α β) : ofList t.entries = t := by
  apply ext
  intro a
  apply Option.ext
  intro b
  rw [find?_ofList (unambiguous_of_nodup (nodup_entries t.sorted)), find?_eq_some]

end FedTrack.Table
