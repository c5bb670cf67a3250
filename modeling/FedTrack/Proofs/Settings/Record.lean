import FedTrack.Proofs.Json.Member
import FedTrack.Proofs.Table.Order
import FedTrack.Settings.Layers

namespace FedTrack

theorem within_map {α β : Type} (segment : String) (r : Except ReadFault α) (f : α → β) :
    within segment (r.map f) = (within segment r).map f := by
  cases r <;> rfl

namespace Slot

variable {α β : Type} {slots : List (Slot α)} {name : String} {set : β → α → α}

/-- One member at work on a record under construction. -/
def putMember (slots : List (Slot α)) (e : String × Json) (a : α) : Except ReadFault α :=
  match slots.find? (·.name == e.1) with
  | none => .ok a
  | some slot => within e.1 (slot.put e.2 a)

theorem putMembers_cons (e : String × Json) (rest : Json.Members) (a : α) :
    putMembers slots (e :: rest) a = (putMember slots e a).bind (putMembers slots rest) := by
  obtain ⟨k, v⟩ := e
  rw [putMembers, putMember]
  cases slots.find? (·.name == k) with
  | none => rfl
  | some slot =>
    dsimp only
    cases within k (slot.put v a) <;> rfl

/-- What `set` changes and what the fields of other names change do not meet. -/
def Apart (slots : List (Slot α)) (name : String) (set : β → α → α) : Prop :=
  ∀ slot ∈ slots, slot.name ≠ name → ∀ j b a, slot.put j (set b a) = (slot.put j a).map (set b)

theorem put_of_comm {γ : Type} {other : String} {absence : Absence}
    {read : Json → Except ReadFault γ} {put : γ → α → α}
    (h : ∀ c b a, put c (set b a) = set b (put c a)) (j : Json) (b : β) (a : α) :
    (of other absence read put).put j (set b a) =
      ((of other absence read put).put j a).map (set b) := by
  simp only [of]
  cases read j with
  | error f => rfl
  | ok c => exact congrArg Except.ok (h c b a)

theorem putMember_set (h : Apart slots name set) {e : String × Json} (he : e.1 ≠ name) (b : β)
    (a : α) : putMember slots e (set b a) = (putMember slots e a).map (set b) := by
  rw [putMember, putMember]
  cases hf : slots.find? (·.name == e.1) with
  | none => rfl
  | some slot =>
    have hname : slot.name = e.1 := by simpa using List.find?_some hf
    dsimp only
    rw [h slot (List.mem_of_find?_eq_some hf) (hname ▸ he), within_map]

theorem putMembers_set (h : Apart slots name set) {m : Json.Members} (hm : ∀ e ∈ m, e.1 ≠ name)
    (b : β) (a : α) : putMembers slots m (set b a) = (putMembers slots m a).map (set b) := by
  induction m generalizing a with
  | nil => rfl
  | cons e rest ih =>
    rw [putMembers_cons, putMembers_cons, putMember_set h (hm e List.mem_cons_self)]
    cases putMember slots e a with
    | error f => rfl
    | ok c => exact ih (fun e he => hm e (List.mem_cons_of_mem _ he)) c

variable {absence : Absence} {read : Json → Except ReadFault β} {m : Json.Members} {v : Json}

/-- A field apart can be read after all others. -/
theorem putMembers_eq_ok (hf : slots.find? (·.name == name) = some (of name absence read set))
    (h : Apart slots name set) (hs : Assoc.Sorted m) (hv : Assoc.find? m name = some v) {a s : α} :
    putMembers slots m a = .ok s ↔ ∃ b rest, read v = .ok b ∧
      putMembers slots (Assoc.erase m name) a = .ok rest ∧ s = set b rest := by
  induction m generalizing a with
  | nil => cases hv
  | cons e tail ih =>
    obtain ⟨k, u⟩ := e
    rw [putMembers_cons, Assoc.erase]
    rw [Assoc.find?] at hv
    by_cases hk : k = name
    · subst hk
      rw [if_pos rfl] at hv ⊢
      cases hv
      have hne : ∀ e ∈ tail, e.1 ≠ k := fun e he => (Key.ne_of_lt (hs.1 e he)).symm
      rw [Table.erase_of_lt hs.1, putMember, hf]
      simp only [of]
      cases read v with
      | error f => simp [within, Except.map, Except.bind]
      | ok b =>
        change putMembers slots tail (set b a) = .ok s ↔ _
        rw [putMembers_set h hne]
        cases putMembers slots tail a with
        | error f => simp [Except.map]
        | ok c => simp [Except.map, eq_comm]
    · rw [if_neg hk] at hv ⊢
      rw [putMembers_cons]
      cases putMember slots (k, u) a with
      | error f => simp [Except.bind]
      | ok c => exact ih hs.2 hv

theorem missing?_erase (h : ∀ slot ∈ slots, slot.absence = .never → slot.name ≠ name) :
    missing? slots (Assoc.erase m name) = missing? slots m := by
  have hsame : ∀ slot ∈ slots,
      (slot.absence == .never && (Assoc.find? (Assoc.erase m name) slot.name).isNone) =
        (slot.absence == .never && (Assoc.find? m slot.name).isNone) := by
    intro slot hslot
    rw [Assoc.find?_erase]
    by_cases ha : slot.absence = .never
    · rw [if_neg (h slot hslot ha).symm]
    · rw [beq_eq_false_iff_ne.mpr ha, Bool.false_and, Bool.false_and]
  rw [missing?, missing?, ← List.head?_filter, ← List.head?_filter, List.filter_congr hsame]

/-- A record is read if it can be read without the field apart, and the field on its own. -/
theorem record_object_eq_ok (set : β → α → α) {exact : Bool} {start s : α}
    (hf : slots.find? (·.name == name) = some (of name absence read set))
    (h : Apart slots name set)
    (hn : ∀ slot ∈ slots, slot.absence = .never → slot.name ≠ name)
    (hs : Assoc.Sorted m) (hv : Assoc.find? m name = some v) :
    record exact slots start (.object m) = .ok s ↔ ∃ b rest, read v = .ok b ∧
      record exact slots start (.object (Assoc.erase m name)) = .ok rest ∧ s = set b rest := by
  have hput (s : α) := putMembers_eq_ok hf h hs hv (a := start) (s := s)
  have hrecord (m : Json.Members) (c : α) : record exact slots start (.object m) = .ok c ↔
      putMembers slots m start = .ok c ∧ missing? slots m = none := by
    rw [record]
    cases putMembers slots m start with
    | error f => simp
    | ok d => cases missing? slots m <;> simp
  simp only [hrecord, missing?_erase hn, hput]
  constructor
  · rintro ⟨⟨b, rest, hb, hrest, rfl⟩, hmissing⟩
    exact ⟨b, rest, hb, ⟨hrest, hmissing⟩, rfl⟩
  · rintro ⟨b, rest, hb, ⟨hrest, hmissing⟩, rfl⟩
    exact ⟨⟨b, rest, hb, hrest, rfl⟩, hmissing⟩

end Slot

namespace Settings

/-- The log level is read on its own, all else without it. -/
theorem settings_object_eq_ok {exact : Bool} {m : Json.Members} {v : Json} {s : Settings}
    (hs : Assoc.Sorted m) (hv : Assoc.find? m variableName = some v) :
    Reader.settings exact (.object m) = .ok s ↔ ∃ level rest,
      Reader.optional Reader.text v = .ok level ∧
      Reader.settings exact (.object (Assoc.erase m variableName)) = .ok rest ∧
      s = { rest with logLevel := level } := by
  unfold Reader.settings
  refine Slot.record_object_eq_ok (fun v (c : Settings) => { c with logLevel := v }) rfl ?_ ?_ hs hv
  · intro slot hslot hne
    simp only [List.mem_cons, List.not_mem_nil, or_false] at hslot
    rcases hslot with rfl | rfl | rfl | rfl | rfl
    · exact absurd rfl hne
    all_goals exact Slot.put_of_comm fun _ _ _ => rfl
  · intro slot hslot hnever
    simp only [List.mem_cons, List.not_mem_nil, or_false] at hslot
    rcases hslot with rfl | rfl | rfl | rfl | rfl <;> simp [Slot.of, variableName] at hnever ⊢

end Settings

end FedTrack
