import FedTrack.Json.Value

namespace FedTrack

theorem Assoc.erase_insert {α β : Type} [Key α] (l : List (α × β)) (a : α) (b : β) :
    erase (insert l a b) a = erase l a := by
  induction l with
  | nil => simp [insert, erase]
  | cons x rest ih =>
    obtain ⟨k, v⟩ := x
    simp only [insert]
    split
    · rename_i hk
      simp only [erase, hk, if_true]
    · rename_i hk
      split
      · simp only [erase, if_true]
      · simp only [erase, hk, if_false, ih]

theorem Assoc.find?_erase_congr {α β : Type} [Key α] {l m : List (α × β)} {a c : α}
    (h : find? l c = find? m c) : find? (erase l a) c = find? (erase m a) c := by
  rw [find?_erase, find?_erase, h]

namespace Json

@[simp] theorem member?_setMember (j : Json) (name other : String) (value : Json) :
    (j.setMember name value).member? other =
      if name = other then some value else j.member? other := by
  cases j <;> simp [setMember, member?, Assoc.find?_insert, Assoc.find?]

@[simp] theorem member?_dropMember (j : Json) (name other : String) :
    (j.dropMember name).member? other = if name = other then none else j.member? other := by
  cases j <;> simp [dropMember, member?, Assoc.find?_erase]

/-- Of a map, a member that is set is the only one that changes. -/
theorem dropMember_setMember (m : Members) (name : String) (value : Json) :
    ((object m).setMember name value).dropMember name = (object m).dropMember name := by
  simp only [setMember, dropMember, Assoc.erase_insert]

end Json

end FedTrack
