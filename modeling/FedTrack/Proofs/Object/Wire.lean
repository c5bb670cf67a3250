import FedTrack.Object.Wire
import FedTrack.Proofs.Json.Field
import FedTrack.Proofs.Object.Timestamp
import FedTrack.Proofs.Table.Lookup

namespace FedTrack

open Json

theorem OwnerReference.ofJson?_toJson (o : OwnerReference) : ofJson? o.toJson = some o := by
  simp only [toJson, ofMembers, ofJson?, members?, Option.bind_eq_bind, Option.bind_some]
  generalize hm : List.foldl _ _ _ = m
  have hfind := fun name => congrArg (Assoc.find? · name) hm.symm
  simp only [List.foldl_append, find?_foldl_optional, List.foldl_cons, List.foldl_nil,
    Assoc.find?_insert] at hfind
  have htext {name s : String} (hf : Assoc.find? m name = some (.string s)) :
      optionalMember string? m name = some (some s) :=
    optionalMember_of_map (o := some s) hf fun _ _ => string_reads _
  have hflag {name : String} {b : Option Bool} (hf : Assoc.find? m name = b.map .bool) :
      optionalMember bool? m name = some b :=
    optionalMember_of_map hf fun _ _ => bool_reads _
  rw [htext (by simpa using hfind "apiVersion"), htext (by simpa using hfind "kind"),
    htext (by simpa using hfind "name"), htext (by simpa using hfind "uid"),
    hflag (by simpa [Assoc.find?] using hfind "controller"),
    hflag (by simpa [Assoc.find?] using hfind "blockOwnerDeletion")]
  rfl

theorem labelsOfJson?_entries (t : Table String String) :
    labelsOfJson? (.object (t.entries.map fun e => (e.1, Json.string e.2))) = some t := by
  have hread (l : List (String × String)) : (l.map fun e => (e.1, Json.string e.2)).mapM
      (fun e => e.2.string?.map fun s => (e.1, s)) = some l := by
    induction l with
    | nil => rfl
    | cons e rest ih =>
      rw [List.map_cons, List.mapM_cons, ih]
      rfl
  have hlabels : labelsOfJson? (.object (t.entries.map fun e => (e.1, Json.string e.2))) =
      some (Table.ofList t.entries) :=
    congrArg (Option.bind · fun pairs => some (Table.ofList pairs)) (hread t.entries)
  rw [hlabels, t.ofList_entries]

namespace Metadata

/-- The generation has 64 bits, and the deletion takes place at a moment of the calendar. -/
structure Valid (m : Metadata) : Prop where
  generation : ∀ g, m.generation = some g → minInt64 ≤ g ∧ g ≤ maxInt64
  deletionTimestamp : ∀ t, m.deletionTimestamp = some t → t.Valid

theorem ofJson?_toJson {m : Metadata} (h : m.Valid) : ofJson? m.toJson = some m := by
  simp only [toJson, ofMembers, ofJson?, members?, Option.bind_eq_bind, Option.bind_some]
  generalize hm : List.foldl _ _ _ = members
  -- what the document has under each name; every field is read through it
  have hfind := fun name => congrArg (Assoc.find? · name) hm.symm
  simp only [List.foldl_append, find?_foldl_optional] at hfind
  have htext {name : String} {s : Option String}
      (hf : Assoc.find? members name = s.map .string) :
      optionalMember string? members name = some s :=
    optionalMember_of_map hf fun _ _ => string_reads _
  have hgeneration : optionalMember int64? members "generation" = some m.generation := by
    refine optionalMember_of_map (by simpa [Assoc.find?] using hfind "generation") ?_
    exact fun g hg => ⟨by simp [ofInt], int64?_eq_some.mpr ⟨rfl, h.generation g hg⟩⟩
  have hdeletion : optionalMember timestamp? members "deletionTimestamp" =
      some m.deletionTimestamp := by
    refine optionalMember_of_map (by simpa [Assoc.find?] using hfind "deletionTimestamp") ?_
    exact fun t ht => ⟨by simp, timestamp?_text (h.deletionTimestamp t ht)⟩
  have howners : optionalMember (listOf OwnerReference.ofJson?) members "ownerReferences" =
      some m.ownerReferences := by
    refine optionalMember_of_map (by simpa [Assoc.find?] using hfind "ownerReferences") ?_
    exact fun l _ => ⟨by simp, listOf_map fun o _ => o.ofJson?_toJson⟩
  have hlabels : optionalMember labelsOfJson? members "labels" = some m.labels := by
    refine optionalMember_of_map (by simpa [Assoc.find?] using hfind "labels") ?_
    exact fun t _ => ⟨by simp, labelsOfJson?_entries t⟩
  rw [htext (by simpa [Assoc.find?] using hfind "name"),
    htext (by simpa [Assoc.find?] using hfind "generateName"),
    htext (by simpa [Assoc.find?] using hfind "namespace"),
    htext (by simpa [Assoc.find?] using hfind "uid"),
    htext (by simpa [Assoc.find?] using hfind "resourceVersion"),
    hgeneration, hdeletion, howners, hlabels]
  rfl

end Metadata

end FedTrack
