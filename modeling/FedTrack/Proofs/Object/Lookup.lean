import FedTrack.Object.Basic

namespace FedTrack

open Json

/-- A path leads through maps from one document to another within it. -/
inductive Json.Leads : Json → List String → Json → Prop
  | here (j : Json) : Leads j [] j
  | within {m : Members} {segment : String} {rest : List String} {next k : Json} :
    Assoc.find? m segment = some next → Leads next rest k → Leads (.object m) (segment :: rest) k

namespace Json.Leads

variable {j k : Json} {p q : List String}

theorem nil_iff : Leads j [] k ↔ j = k := by
  constructor
  · rintro ⟨⟩
    rfl
  · rintro rfl
    exact .here j

theorem cons_iff {segment : String} :
    Leads j (segment :: p) k ↔ ∃ next, j.member? segment = some next ∧ Leads next p k := by
  constructor
  · rintro (_ | ⟨hf, h⟩)
    exact ⟨_, hf, h⟩
  · rintro ⟨next, hm, h⟩
    cases j with
    | object m => exact .within hm h
    | _ => cases hm

theorem append {l : Json} (h : Leads j p k) (h' : Leads k q l) : Leads j (p ++ q) l := by
  induction h with
  | here _ => exact h'
  | within hf _ ih => exact .within hf (ih h')

end Json.Leads

/-- A path leads to its end, or to a document without its next segment: what is no map has no
members, so it stops a path just as a map does that lacks the segment. -/
theorem Json.leads_or_stops (j : Json) (path : List String) :
    (∃ k, Leads j path k) ∨ ∃ front segment back k, path = front ++ segment :: back ∧
      Leads j front k ∧ k.member? segment = none := by
  induction path generalizing j with
  | nil => exact Or.inl ⟨j, .here j⟩
  | cons segment rest ih =>
    cases hm : j.member? segment with
    | none => exact Or.inr ⟨[], segment, rest, j, rfl, .here j, hm⟩
    | some next =>
      rcases ih next with ⟨k, h⟩ | ⟨front, gone, back, k, rfl, h, hk⟩
      · exact Or.inl ⟨k, Leads.cons_iff.mpr ⟨next, hm, h⟩⟩
      · exact Or.inr ⟨segment :: front, gone, back, k, rfl,
          Leads.cons_iff.mpr ⟨next, hm, h⟩, hk⟩

namespace Object

/-- What a look-up comes to, by where its path leads. Null is as good as nothing at the end of a
path, but no path leads on from it. -/
inductive Finds (j : Json) (path : List String) : Except Error (Option Members) → Prop
  | map {m : Members} : Leads j path (.object m) → Finds j path (.ok (some m))
  | null : Leads j path .null → Finds j path (.ok none)
  | missing {front back : List String} {segment : String} {m : Members} :
    path = front ++ segment :: back → Leads j front (.object m) → Assoc.find? m segment = none →
      Finds j path (.ok none)
  | unexpected {k : Json} : Leads j path k → k ≠ .null → (∀ m, k ≠ .object m) →
    Finds j path (.error (.unexpected path k.kindWord))
  | notMap {front back : List String} {segment : String} {k : Json} :
    path = front ++ segment :: back → Leads j front k → (∀ m, k ≠ .object m) →
      Finds j path (.error (.notMap path front.length))

theorem exists_finds (j : Json) (path : List String) : ∃ r, Finds j path r := by
  rcases leads_or_stops j path with ⟨k, h⟩ | ⟨front, segment, back, k, hp, h, hk⟩
  · cases k with
    | null => exact ⟨_, .null h⟩
    | object m => exact ⟨_, .map h⟩
    | _ => exact ⟨_, .unexpected h nofun nofun⟩
  · cases k with
    | object m => exact ⟨_, .missing hp h hk⟩
    | _ => exact ⟨_, .notMap hp h nofun⟩

/-- A walk goes on from where the first part of its path leads. -/
theorem walk_append {j k : Json} {front : List String} (h : Leads j front k)
    (path : List String) (depth : Nat) (rest : List String) :
    walk path depth j (front ++ rest) = walk path (depth + front.length) k rest := by
  induction h generalizing depth with
  | here _ => rfl
  | within hf _ ih =>
    simp only [List.cons_append, walk, hf, ih, List.length_cons]
    congr 1
    omega

theorem walk_onward {j k : Json} {path front rest : List String} (hp : path = front ++ rest)
    (h : Leads j front k) : walk path 0 j path = walk path front.length k rest := by
  have hwalk := walk_append h path 0 rest
  rwa [← hp, Nat.zero_add] at hwalk

theorem walk_of_leads {j k : Json} {path : List String} (h : Leads j path k) :
    walk path 0 j path = .ok (some k) :=
  walk_onward (List.append_nil path).symm h

theorem Finds.nestedMap_eq {o : Object} {path : List String}
    {r : Except Error (Option Members)} (h : Finds o.data path r) : o.nestedMap path = r := by
  unfold nestedMap
  cases h with
  | map h => rw [walk_of_leads h]
  | null h => rw [walk_of_leads h]
  | missing hp h hf =>
    rw [walk_onward hp h]
    simp only [walk, hf]
  | @unexpected k h hnull hmap =>
    rw [walk_of_leads h]
    cases k with
    | null => exact absurd rfl hnull
    | object m => exact absurd rfl (hmap m)
    | _ => rfl
  | @notMap front back segment k hp h hmap =>
    rw [walk_onward hp h]
    cases k with
    | object m => exact absurd rfl (hmap m)
    | _ => rfl

theorem finds_nestedMap (o : Object) (path : List String) :
    Finds o.data path (o.nestedMap path) := by
  obtain ⟨r, h⟩ := exists_finds o.data path
  rw [h.nestedMap_eq]
  exact h

/-- A look-up comes to what its path leads to, and to nothing else. -/
theorem nestedMap_eq_iff {o : Object} {path : List String} {r : Except Error (Option Members)} :
    o.nestedMap path = r ↔ Finds o.data path r := by
  constructor
  · rintro rfl
    exact finds_nestedMap o path
  · exact Finds.nestedMap_eq

section
variable {o : Object} {path : List String}

theorem nestedMap_eq_some_iff {m : Members} :
    o.nestedMap path = .ok (some m) ↔ o.data.Leads path (.object m) := by
  rw [nestedMap_eq_iff]
  constructor
  · rintro ⟨h⟩
    exact h
  · exact .map

theorem nestedMap_eq_none_iff : o.nestedMap path = .ok none ↔ o.data.Leads path .null ∨
    ∃ front segment back m, path = front ++ segment :: back ∧ o.data.Leads front (.object m) ∧
      Assoc.find? m segment = none := by
  rw [nestedMap_eq_iff]
  constructor
  · intro h
    cases h with
    | null h => exact Or.inl h
    | missing hp h hf => exact Or.inr ⟨_, _, _, _, hp, h, hf⟩
  · rintro (h | ⟨front, segment, back, m, hp, h, hf⟩)
    · exact .null h
    · exact .missing hp h hf

theorem nestedMap_eq_error_iff {e : Error} : o.nestedMap path = .error e ↔
    (∃ front segment back j, path = front ++ segment :: back ∧ o.data.Leads front j ∧
      (∀ m, j ≠ .object m) ∧ e = .notMap path front.length) ∨
    ∃ j, o.data.Leads path j ∧ j ≠ .null ∧ (∀ m, j ≠ .object m) ∧
      e = .unexpected path j.kindWord := by
  rw [nestedMap_eq_iff]
  constructor
  · intro h
    cases h with
    | notMap hp h hmap => exact Or.inl ⟨_, _, _, _, hp, h, hmap, rfl⟩
    | unexpected h hnull hmap => exact Or.inr ⟨_, h, hnull, hmap, rfl⟩
  · rintro (⟨front, segment, back, j, hp, h, hmap, rfl⟩ | ⟨j, h, hnull, hmap, rfl⟩)
    · exact .notMap hp h hmap
    · exact .unexpected h hnull hmap

end

/-- An error of a look-up, told of the longer path that begins with `p`. -/
def Error.under (p : List String) : Error → Error
  | .missingType => .missingType
  | .notMap path depth => .notMap (p ++ path) (p.length + depth)
  | .unexpected path found => .unexpected (p ++ path) found

theorem Finds.under {j k : Json} {p q : List String} {r : Except Error (Option Members)}
    (hp : Leads j p k) (h : Finds k q r) : Finds j (p ++ q) (r.mapError (Error.under p)) := by
  cases h with
  | map h => exact .map (hp.append h)
  | null h => exact .null (hp.append h)
  | @missing front back segment m hq h hf =>
    have hpq : p ++ q = (p ++ front) ++ segment :: back := by rw [hq, List.append_assoc]
    exact .missing hpq (hp.append h) hf
  | unexpected h hnull hmap => exact .unexpected (hp.append h) hnull hmap
  | @notMap front back segment k hq h hmap =>
    have hpq : p ++ q = (p ++ front) ++ segment :: back := by rw [hq, List.append_assoc]
    have hfound := Finds.notMap hpq (hp.append h) hmap
    rwa [List.length_append] at hfound

theorem nestedMap_append {o : Object} {p : List String} {j : Json} (h : o.data.Leads p j)
    (q : List String) :
    o.nestedMap (p ++ q) = ({ o with data := j }.nestedMap q).mapError (Error.under p) := by
  have hq := finds_nestedMap { o with data := j } q
  exact (hq.under h).nestedMap_eq

/-- A look-up finds the map that its path leads to. It finds nothing if the path leads to null, or
to a map without the path's next segment. It fails if the path leads to anything but a map before
its end, be it null, or at its end to what is neither a map nor null; the error tells which. Where
one path leads, any other is looked up as it is from there, except that an error names the path as
a whole. -/
theorem nested_lookup_law (o : Object) :
    (∀ path m, o.nestedMap path = .ok (some m) ↔ o.data.Leads path (.object m)) ∧
    (∀ path, o.nestedMap path = .ok none ↔ o.data.Leads path .null ∨
      ∃ front segment back m, path = front ++ segment :: back ∧
        o.data.Leads front (.object m) ∧ Assoc.find? m segment = none) ∧
    (∀ path e, o.nestedMap path = .error e ↔
      (∃ front segment back j, path = front ++ segment :: back ∧ o.data.Leads front j ∧
        (∀ m, j ≠ .object m) ∧ e = .notMap path front.length) ∨
      ∃ j, o.data.Leads path j ∧ j ≠ .null ∧ (∀ m, j ≠ .object m) ∧
        e = .unexpected path j.kindWord) ∧
    ∀ p j, o.data.Leads p j → ∀ q,
      o.nestedMap (p ++ q) = ({ o with data := j }.nestedMap q).mapError (Error.under p) :=
  ⟨fun _ _ => nestedMap_eq_some_iff, fun _ => nestedMap_eq_none_iff,
    fun _ _ => nestedMap_eq_error_iff, fun _ _ h => nestedMap_append h⟩

/-- Null is nothing at the end of a path, and in the way of a longer one. -/
theorem nested_lookup_law_sample :
    let spec : Json := .object [("paused", .null), ("replicas", .ofNat 3)]
    let o : Object := { (default : Object) with data := .object [("spec", spec)] }
    o.data.Leads ["spec"] spec ∧ o.nestedMap ["spec", "paused"] = .ok none ∧
      o.nestedMap ["spec", "paused", "since"] =
        .error (.notMap ["spec", "paused", "since"] 2) := by
  intro spec o
  obtain ⟨-, hnone, -, happend⟩ := nested_lookup_law o
  obtain ⟨-, -, herror, -⟩ := nested_lookup_law { o with data := spec }
  have hspec : o.data.Leads ["spec"] spec := .within rfl (.here spec)
  have hpaused : spec.Leads ["paused"] .null := .within rfl (.here .null)
  refine ⟨hspec, (hnone _).mpr (Or.inl (hspec.append hpaused)), ?_⟩
  have hfails : { o with data := spec }.nestedMap ["paused", "since"] =
      .error (.notMap ["paused", "since"] 1) :=
    (herror _ _).mpr (Or.inl ⟨["paused"], "since", [], .null, rfl, hpaused, nofun, rfl⟩)
  exact (happend _ _ hspec _).trans (by rw [hfails]; rfl)

end Object

end FedTrack
