import FedTrack.Json.Value
import Mathlib.Data.List.Forall2

namespace FedTrack

theorem Number.agrees_refl (n : Number) : n.agrees n = true := by
  cases n <;> simp [agrees, Double.agrees]

namespace Json

mutual

theorem agrees_refl : (j : Json) → j.agrees j = true
  | .null => rfl
  | .bool b => by simp [agrees]
  | .number n => by simp [agrees, Number.agrees_refl]
  | .string s => by simp [agrees]
  | .array l => by
    rw [agrees]
    exact itemsAgree_refl l
  | .object m => by
    rw [agrees]
    exact membersAgree_refl m

theorem itemsAgree_refl : (l : List Json) → itemsAgree l l = true
  | [] => rfl
  | a :: l => by rw [itemsAgree, agrees_refl a, itemsAgree_refl l, Bool.and_self]

theorem membersAgree_refl : (m : Members) → membersAgree m m = true
  | [] => rfl
  | (k, a) :: m => by
    rw [membersAgree, agrees_refl a, membersAgree_refl m, beq_self_eq_true, Bool.and_self,
      Bool.and_self]

end

theorem eq_of_agrees_string {j : Json} {s : String} (h : j.agrees (.string s) = true) :
    j = .string s := by
  cases j <;> simp_all [agrees]

theorem forall₂_of_itemsAgree {l m : List Json} (h : itemsAgree l m = true) :
    List.Forall₂ (fun a b => a.agrees b = true) l m := by
  induction l generalizing m with
  | nil =>
    cases m with
    | nil => exact .nil
    | cons b m => simp [itemsAgree] at h
  | cons a l ih =>
    cases m with
    | nil => simp [itemsAgree] at h
    | cons b m =>
      simp only [itemsAgree, Bool.and_eq_true] at h
      exact .cons h.1 (ih h.2)

theorem forall₂_of_agrees_array {j : Json} {m : List Json} (h : j.agrees (.array m) = true) :
    ∃ l, j = .array l ∧ List.Forall₂ (fun a b => a.agrees b = true) l m := by
  cases j with
  | array l => exact ⟨l, rfl, forall₂_of_itemsAgree (by simpa [agrees] using h)⟩
  | _ => simp [agrees] at h

/-- An object agrees with another one if they have the same members in the same order. -/
theorem member?_of_membersAgree {l m : Members} (h : membersAgree l m = true) (name : String) :
    ((object l).member? name = none ∧ (object m).member? name = none) ∨
    ∃ a b, (object l).member? name = some a ∧ (object m).member? name = some b ∧
      a.agrees b = true := by
  induction l generalizing m with
  | nil =>
    cases m with
    | nil => exact Or.inl ⟨rfl, rfl⟩
    | cons e m => simp [membersAgree] at h
  | cons e l ih =>
    cases m with
    | nil => simp [membersAgree] at h
    | cons e' m =>
      obtain ⟨k, a⟩ := e
      obtain ⟨k', b⟩ := e'
      simp only [membersAgree, Bool.and_eq_true, beq_iff_eq] at h
      obtain ⟨⟨rfl, hab⟩, hrest⟩ := h
      by_cases hk : k = name
      · refine Or.inr ⟨a, b, ?_, ?_, hab⟩
        · simp [member?, Assoc.find?, hk]
        · simp [member?, Assoc.find?, hk]
      · have hl : (object ((k, a) :: l)).member? name = (object l).member? name := by
          simp [member?, Assoc.find?, hk]
        have hm : (object ((k, b) :: m)).member? name = (object m).member? name := by
          simp [member?, Assoc.find?, hk]
        rw [hl, hm]
        exact ih hrest

theorem member?_of_agrees_object {j : Json} {m : Members} (h : j.agrees (.object m) = true)
    (name : String) : (j.member? name = none ∧ (object m).member? name = none) ∨
    ∃ a b, j.member? name = some a ∧ (object m).member? name = some b ∧ a.agrees b = true := by
  cases j with
  | object l => exact member?_of_membersAgree (by simpa [agrees] using h) name
  | _ => simp [agrees] at h

end Json

end FedTrack
