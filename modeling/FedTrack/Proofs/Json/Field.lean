import FedTrack.Json.Field
import Mathlib.Data.List.Basic

namespace FedTrack.Json

variable {α : Type} {read : Json → Option α} {m : Members} {name : String}

/-- A member that need not be there counts as absent if it is null. -/
def Lacks (m : Members) (name : String) : Prop :=
  Assoc.find? m name = none ∨ Assoc.find? m name = some .null

theorem optional_eq_none_iff {j : Json} : optional read j = some none ↔ j = .null := by
  cases j <;> simp [optional]

theorem optional_eq_some {j : Json} {a : α} (h : optional read j = some (some a)) :
    read j = some a := by
  cases j <;> simp_all [optional]

theorem optionalMember_eq_none_iff (read : Json → Option α) :
    optionalMember read m name = some none ↔ Lacks m name := by
  unfold optionalMember Lacks
  cases hf : Assoc.find? m name with
  | none => simp
  | some j => simp [optional_eq_none_iff]

theorem optionalMember_eq_some {a : α} (h : optionalMember read m name = some (some a)) :
    ∃ j, read j = some a := by
  unfold optionalMember at h
  split at h
  · cases h
  · rename_i j hf
    exact ⟨j, optional_eq_some h⟩

/-- A member that is not null is read, or the document is not. -/
theorem optionalMember_of_find? {j : Json} (hf : Assoc.find? m name = some j) (hj : j ≠ .null) :
    optionalMember read m name = (read j).map some := by
  rw [optionalMember, hf]
  cases j with
  | null => exact absurd rfl hj
  | _ => rfl

/-- An optional member is read back if it is left out when absent and never written as null. -/
theorem optionalMember_of_map {write : α → Json} {o : Option α}
    (hf : Assoc.find? m name = o.map write)
    (hread : ∀ a, o = some a → write a ≠ .null ∧ read (write a) = some a) :
    optionalMember read m name = some o := by
  cases o with
  | none => exact (optionalMember_eq_none_iff read).mpr (Or.inl hf)
  | some a =>
    obtain ⟨hnull, ha⟩ := hread a rfl
    rw [optionalMember_of_find? hf hnull, ha, Option.map_some]

/-- Of members that are added one after the other, one that need not be there. -/
theorem find?_foldl_optional (write : α → Json) (m : Members) (o : Option α)
    (name other : String) :
    Assoc.find? ((o.map fun a => (name, write a)).toList.foldl
      (fun m e => Assoc.insert m e.1 e.2) m) other =
      (if name = other then o.map write else none).or (Assoc.find? m other) := by
  cases o with
  | none => simp
  | some a =>
    simp only [Option.map_some, Option.toList_some, List.foldl_cons, List.foldl_nil,
      Assoc.find?_insert]
    split <;> rfl

theorem string_reads (s : String) : string s ≠ .null ∧ string? (string s) = some s :=
  ⟨by simp, rfl⟩

theorem bool_reads (b : Bool) : bool b ≠ .null ∧ bool? (bool b) = some b :=
  ⟨by simp, rfl⟩

theorem memberOr_eq_some {a fallback : α} (h : memberOr read fallback m name = some a) :
    (Assoc.find? m name = none ∧ a = fallback) ∨ ∃ j, read j = some a := by
  unfold memberOr at h
  split at h
  · rename_i hf
    cases h
    exact Or.inl ⟨hf, rfl⟩
  · exact Or.inr ⟨_, h⟩

/-- A list is read back if its items are. -/
theorem listOf_map {write : α → Json} {l : List α} (h : ∀ a ∈ l, read (write a) = some a) :
    listOf read (.array (l.map write)) = some l := by
  dsimp only [listOf]
  induction l with
  | nil => rfl
  | cons a rest ih =>
    rw [List.forall_mem_cons] at h
    simp [List.mapM_cons, h.1, ih h.2]

theorem exists_of_listOf {j : Json} {l : List α} (h : listOf read j = some l) {a : α}
    (ha : a ∈ l) : ∃ item, read item = some a := by
  unfold listOf at h
  split at h
  · rename_i items
    induction items generalizing l with
    | nil =>
      cases h
      cases ha
    | cons item rest ih =>
      simp only [List.mapM_cons, Option.bind_eq_bind, Option.bind_eq_some_iff] at h
      obtain ⟨b, hb, tail, htail, hl⟩ := h
      cases hl
      rcases List.mem_cons.mp ha with rfl | ha
      · exact ⟨item, hb⟩
      · exact ih ha htail
  · cases h

theorem int64?_eq_some {j : Json} {i : Int} :
    int64? j = some i ↔ j = ofInt i ∧ minInt64 ≤ i ∧ i ≤ maxInt64 := by
  unfold int64?
  split
  · rename_i k
    simp only [Bool.and_eq_true, decide_eq_true_eq, Option.ite_none_right_eq_some,
      Option.some.injEq]
    constructor
    · rintro ⟨hk, rfl⟩
      exact ⟨rfl, hk⟩
    · rintro ⟨h, hi⟩
      cases h
      exact ⟨hi, rfl⟩
  · rename_i hj
    refine iff_of_false nofun ?_
    rintro ⟨rfl, -⟩
    exact hj i rfl

end FedTrack.Json
