namespace FedTrack

/-- Keys in a strict total order that a program can decide. -/
class Key (α : Type) where
  decEq : DecidableEq α
  lt : α → α → Bool
  irrefl : ∀ a, lt a a = false
  trans : ∀ {a b c}, lt a b = true → lt b c = true → lt a c = true
  total : ∀ a b, lt a b = true ∨ a = b ∨ lt b a = true

instance (priority := low) {α : Type} [Key α] : DecidableEq α := Key.decEq

namespace Key

theorem ne_of_lt {α : Type} [Key α] {a b : α} (h : lt a b = true) : a ≠ b := by
  intro he
  subst he
  simp [irrefl] at h

theorem asymm {α : Type} [Key α] {a b : α} (h : lt a b = true) : lt b a = false := by
  cases hb : lt b a with
  | false => rfl
  | true =>
    have h' := trans h hb
    simp [irrefl] at h'

end Key

instance : Key String where
  decEq := inferInstance
  lt a b := decide (a < b)
  irrefl a := by simp
  trans h₁ h₂ := by
    simp only [decide_eq_true_eq] at *
    exact String.lt_trans h₁ h₂
  total a b := by
    simp only [decide_eq_true_eq]
    by_cases h : a < b
    · exact Or.inl h
    · by_cases h' : b < a
      · exact Or.inr (Or.inr h')
      · exact Or.inr (Or.inl (String.le_antisymm (String.not_lt.mp h') (String.not_lt.mp h)))

instance : Key Nat where
  decEq := inferInstance
  lt a b := decide (a < b)
  irrefl a := by simp
  trans h₁ h₂ := by
    simp only [decide_eq_true_eq] at *
    omega
  total a b := by
    simp only [decide_eq_true_eq]
    omega

instance {α β : Type} [Key α] [Key β] : Key (α × β) where
  decEq := inferInstance
  lt a b := Key.lt a.1 b.1 || (decide (a.1 = b.1) && Key.lt a.2 b.2)
  irrefl a := by simp [Key.irrefl]
  trans {a b c} h₁ h₂ := by
    simp only [Bool.or_eq_true, Bool.and_eq_true, decide_eq_true_eq] at *
    rcases h₁ with h₁ | ⟨e₁, h₁⟩ <;> rcases h₂ with h₂ | ⟨e₂, h₂⟩
    · exact Or.inl (Key.trans h₁ h₂)
    · exact Or.inl (e₂ ▸ h₁)
    · exact Or.inl (e₁ ▸ h₂)
    · exact Or.inr ⟨e₁.trans e₂, Key.trans h₁ h₂⟩
  total a b := by
    simp only [Bool.or_eq_true, Bool.and_eq_true, decide_eq_true_eq]
    rcases Key.total a.1 b.1 with h | h | h
    · exact Or.inl (Or.inl h)
    · rcases Key.total a.2 b.2 with h' | h' | h'
      · exact Or.inl (Or.inr ⟨h, h'⟩)
      · exact Or.inr (Or.inl (Prod.ext h h'))
      · exact Or.inr (Or.inr (Or.inr ⟨h.symm, h'⟩))
    · exact Or.inr (Or.inr (Or.inl h))

namespace Key

def listLt {α : Type} [Key α] : List α → List α → Bool
  | [], [] => false
  | [], _ :: _ => true
  | _ :: _, [] => false
  | a :: as, b :: bs => lt a b || (decide (a = b) && listLt as bs)

theorem listLt_irrefl {α : Type} [Key α] (l : List α) : listLt l l = false := by
  induction l with
  | nil => rfl
  | cons a as ih => simp [listLt, irrefl, ih]

theorem listLt_trans {α : Type} [Key α] {l m n : List α} (h₁ : listLt l m = true)
    (h₂ : listLt m n = true) : listLt l n = true := by
  induction l generalizing m n with
  | nil =>
    cases n with
    | nil => cases m <;> simp [listLt] at *
    | cons _ _ => rfl
  | cons a as ih =>
    cases m with
    | nil => simp [listLt] at h₁
    | cons b bs =>
      cases n with
      | nil => simp [listLt] at h₂
      | cons c cs =>
        simp only [listLt, Bool.or_eq_true, Bool.and_eq_true, decide_eq_true_eq] at *
        rcases h₁ with h₁ | ⟨e₁, h₁⟩ <;> rcases h₂ with h₂ | ⟨e₂, h₂⟩
        · exact Or.inl (trans h₁ h₂)
        · exact Or.inl (e₂ ▸ h₁)
        · exact Or.inl (e₁ ▸ h₂)
        · exact Or.inr ⟨e₁.trans e₂, ih h₁ h₂⟩

theorem listLt_total {α : Type} [Key α] (l m : List α) :
    listLt l m = true ∨ l = m ∨ listLt m l = true := by
  induction l generalizing m with
  | nil => cases m <;> simp [listLt]
  | cons a as ih =>
    cases m with
    | nil => simp [listLt]
    | cons b bs =>
      simp only [listLt, Bool.or_eq_true, Bool.and_eq_true, decide_eq_true_eq]
      rcases total a b with h | h | h
      · exact Or.inl (Or.inl h)
      · subst h
        rcases ih bs with h | h | h
        · exact Or.inl (Or.inr ⟨rfl, h⟩)
        · exact Or.inr (Or.inl (h ▸ rfl))
        · exact Or.inr (Or.inr (Or.inr ⟨rfl, h⟩))
      · exact Or.inr (Or.inr (Or.inl h))

end Key

instance {α : Type} [Key α] : Key (List α) where
  decEq := inferInstance
  lt := Key.listLt
  irrefl := Key.listLt_irrefl
  trans := Key.listLt_trans
  total := Key.listLt_total

end FedTrack
