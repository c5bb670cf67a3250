import FedTrack.Settings.Layers

namespace FedTrack

namespace Json

variable {fields : Members}

theorem overlay_object (m fields : Members) :
    (object m).overlay (object fields) = object (overlayMembers m fields) := by
  rw [overlay, membersOrNone]

theorem overlay_nothing (m : Members) : (object m).overlay (object []) = object m := by
  rw [overlay_object, overlayMembers]

/-- Of two documents the one on top counts, or both are maps. -/
theorem overlay_eq (below above : Json) : below.overlay above = above ∨
    ∃ fields, above = object fields ∧
      below.overlay above = object (overlayMembers below.membersOrNone fields) := by
  cases above with
  | object fields => exact Or.inr ⟨fields, rfl, by rw [overlay]⟩
  | _ => exact Or.inl (by simp [overlay])

theorem sorted_overlayMembers (fields : Members) {below : Members} (h : Assoc.Sorted below) :
    Assoc.Sorted (overlayMembers below fields) := by
  induction fields generalizing below with
  | nil => rwa [overlayMembers]
  | cons e rest ih =>
    obtain ⟨k, v⟩ := e
    rw [overlayMembers]
    exact ih (Assoc.sorted_insert h k _)

/-- What is under a name depends on what both documents have under this name only. -/
theorem find?_overlayMembers (hs : Assoc.Sorted fields) (below : Members) (name : String) :
    Assoc.find? (overlayMembers below fields) name =
      match Assoc.find? fields name, Assoc.find? below name with
      | some v, some old => some (old.overlay v)
      | some v, none => some v
      | none, old => old := by
  induction fields generalizing below with
  | nil => rw [overlayMembers, Assoc.find?]
  | cons e rest ih =>
    obtain ⟨k, v⟩ := e
    rw [overlayMembers, ih hs.2, Assoc.find?, Assoc.find?_insert]
    by_cases hk : k = name
    · subst hk
      rw [Assoc.find?_eq_none_of_lt hs.1, if_pos rfl, if_pos rfl]
      cases Assoc.find? below k <;> rfl
    · rw [if_neg hk, if_neg hk]

theorem overlay_empty (hs : Assoc.Sorted fields) :
    (object []).overlay (object fields) = object fields := by
  rw [overlay_object]
  congr 1
  have hempty : Assoc.Sorted ([] : Members) := trivial
  apply Assoc.ext (sorted_overlayMembers fields hempty) hs
  intro name
  rw [find?_overlayMembers hs]
  cases Assoc.find? fields name <;> rfl

end Json

theorem Yaml.Node.sorted_membersJson (members : List (String × Node)) {read : Json.Members}
    (h : Assoc.Sorted read) : Assoc.Sorted (membersJson members read) := by
  induction members generalizing read with
  | nil => rwa [membersJson]
  | cons e rest ih =>
    obtain ⟨key, n⟩ := e
    rw [membersJson]
    exact ih (Assoc.sorted_insert h key _)

theorem Yaml.resolve_ne_object (text : String) (m : Json.Members) : resolve text ≠ .object m := by
  grind [resolve, wholeJson]

/-- The map of a document has its members in order. -/
theorem Yaml.sorted_of_mem_parse {text : String} {documents : List Json}
    (h : parse text = some documents) {m : Json.Members} (hm : .object m ∈ documents) :
    Assoc.Sorted m := by
  obtain ⟨nodes, -, rfl⟩ := Option.map_eq_some_iff.mp h
  obtain ⟨n, -, hn⟩ := List.mem_map.mp hm
  cases n with
  | map members =>
    rw [Node.toJson] at hn
    cases hn
    exact Node.sorted_membersJson members trivial
  | plain s =>
    rw [Node.toJson] at hn
    exact absurd hn (resolve_ne_object s m)
  | quoted s | list items => simp [Node.toJson] at hn

end FedTrack
