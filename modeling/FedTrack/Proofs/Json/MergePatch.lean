import FedTrack.Json.MergePatch
import FedTrack.Proofs.Json.Member

namespace FedTrack.Json

/-- What a merge patch makes of a value, or of nothing at all. A patch that is not a map is the
result. A map decides name by name, and a target that is no map counts as an empty one. -/
inductive Patched : Option Json → Json → Json → Prop
  | replaced {target : Option Json} {patch : Json} (hp : patch.members? = none) :
      Patched target patch patch
  | merged {target : Option Json} {fields m : Members}
      (untouched : ∀ name, Assoc.find? fields name = none →
        Assoc.find? m name = target.bind (·.member? name))
      (removed : ∀ name, Assoc.find? fields name = some .null → Assoc.find? m name = none)
      (kept : ∀ name v, Assoc.find? fields name = some v → v ≠ .null →
        (Assoc.find? m name).isSome = true)
      (within : ∀ name v r, Assoc.find? fields name = some v → v ≠ .null →
        Assoc.find? m name = some r → Patched (target.bind (·.member? name)) v r) :
      Patched target (.object fields) (.object m)

@[simp] theorem find?_membersOrNone (t : Json) (name : String) :
    Assoc.find? t.membersOrNone name = t.member? name := by
  cases t <;> rfl

/-- One member of a patch at work. -/
theorem mergeMembers_cons (target : Members) (k : String) (v : Json) (rest : Members) :
    mergeMembers target ((k, v) :: rest) =
      mergeMembers
        (if v = .null then Assoc.erase target k
        else Assoc.insert target k (mergePatch ((Assoc.find? target k).getD .null) v)) rest := by
  cases v <;> simp [mergeMembers]

/-- What is stored under a name depends on what the patch has under this name only. -/
theorem find?_mergeMembers {fields : Members} (hs : Assoc.Sorted fields) (target : Members)
    (name : String) :
    Assoc.find? (mergeMembers target fields) name =
      match Assoc.find? fields name with
      | none => Assoc.find? target name
      | some v =>
        if v = .null then none else some (mergePatch ((Assoc.find? target name).getD .null) v) := by
  induction fields generalizing target with
  | nil => rw [mergeMembers, Assoc.find?]
  | cons e rest ih =>
    obtain ⟨k, v⟩ := e
    rw [mergeMembers_cons, ih hs.2, Assoc.find?]
    by_cases hk : k = name
    · subst hk
      rw [Assoc.find?_eq_none_of_lt hs.1, if_pos rfl]
      dsimp only
      split
      · rw [Assoc.find?_erase, if_pos rfl]
      · rw [Assoc.find?_insert, if_pos rfl]
    · have hother : Assoc.find? (if v = .null then Assoc.erase target k
          else Assoc.insert target k (mergePatch ((Assoc.find? target k).getD .null) v)) name =
          Assoc.find? target name := by
        split
        · rw [Assoc.find?_erase, if_neg hk]
        · rw [Assoc.find?_insert, if_neg hk]
      rw [hother, if_neg hk]

theorem membersOrdered_iff {m : Members} : membersOrdered m ↔ ∀ e ∈ m, e.2.Ordered := by
  induction m with
  | nil => simp [membersOrdered]
  | cons e rest ih =>
    obtain ⟨k, v⟩ := e
    simp [membersOrdered, ih]

theorem ordered_object {m : Members} :
    (object m).Ordered ↔ Assoc.Sorted m ∧ ∀ e ∈ m, e.2.Ordered := by
  rw [Ordered, membersOrdered_iff]

theorem Ordered.find? {m : Members} (h : (object m).Ordered) {name : String} {v : Json}
    (hv : Assoc.find? m name = some v) : v.Ordered :=
  (ordered_object.mp h).2 (name, v) ((Assoc.find?_eq_some (ordered_object.mp h).1).mp hv)

theorem Ordered.erase {m : Members} (h : (object m).Ordered) (name : String) :
    (object (Assoc.erase m name)).Ordered := by
  obtain ⟨hs, hm⟩ := ordered_object.mp h
  exact ordered_object.mpr ⟨Assoc.sorted_erase hs name, fun e he => hm e (Assoc.mem_erase he)⟩

theorem Ordered.insert {m : Members} (h : (object m).Ordered) (name : String) {v : Json}
    (hv : v.Ordered) : (object (Assoc.insert m name v)).Ordered := by
  obtain ⟨hs, hm⟩ := ordered_object.mp h
  refine ordered_object.mpr ⟨Assoc.sorted_insert hs name v, ?_⟩
  intro e he
  rcases Assoc.mem_insert he with rfl | he
  · exact hv
  · exact hm e he

theorem Ordered.membersOrNone {t : Json} (h : t.Ordered) : (object t.membersOrNone).Ordered := by
  cases t with
  | object m => exact h
  | _ => exact ordered_object.mpr ⟨trivial, nofun⟩

mutual

theorem ordered_mergePatch : (p : Json) → p.Ordered → ∀ {t : Json}, t.Ordered →
    (t.mergePatch p).Ordered
  | .object fields, hp, t, ht => by
    rw [mergePatch]
    rw [Ordered] at hp
    exact ordered_mergeMembers fields hp.2 ht.membersOrNone
  | .null, hp, _, _ | .bool _, hp, _, _ | .number _, hp, _, _ | .string _, hp, _, _
  | .array _, hp, _, _ => hp

theorem ordered_mergeMembers : (fields : Members) → membersOrdered fields →
    ∀ {target : Members}, (object target).Ordered → (object (mergeMembers target fields)).Ordered
  | [], _, _, ht => by
    rw [mergeMembers]
    exact ht
  | (k, v) :: rest, hf, target, ht => by
    rw [membersOrdered] at hf
    rw [mergeMembers_cons]
    refine ordered_mergeMembers rest hf.2 ?_
    split
    · exact ht.erase k
    · refine ht.insert k (ordered_mergePatch v hf.1 ?_)
      cases hv : Assoc.find? target k with
      | none => trivial
      | some old => exact ht.find? hv

end

namespace Patched

/-- A target without members is as good as none. -/
theorem of_memberless {t p r : Json} (h : Patched (some t) p r)
    (ht : ∀ name, t.member? name = none) : Patched none p r := by
  cases h with
  | replaced hp => exact .replaced hp
  | merged untouched removed kept within =>
    have hnone : ∀ name,
        (some t).bind (·.member? name) = (none : Option Json).bind (·.member? name) := ht
    simp only [hnone] at untouched within
    exact .merged untouched removed kept within

/-- What is no map is its own result. -/
theorem eq_of_plain {t : Option Json} {p r : Json} (h : Patched t p r) (hp : p.members? = none) :
    r = p := by
  cases h with
  | replaced => rfl
  | merged => cases hp

section Members

variable {t : Option Json} {fields : Members} {r : Json} {name : String}

theorem exists_members (h : Patched t (.object fields) r) : ∃ m, r = .object m := by
  cases h with
  | replaced hp => cases hp
  | @merged _ _ m => exact ⟨m, rfl⟩

theorem member?_untouched (h : Patched t (.object fields) r) (hv : Assoc.find? fields name = none) :
    r.member? name = t.bind (·.member? name) := by
  cases h with
  | replaced hp => cases hp
  | merged untouched => exact untouched name hv

theorem member?_removed (h : Patched t (.object fields) r)
    (hv : Assoc.find? fields name = some .null) : r.member? name = none := by
  cases h with
  | replaced hp => cases hp
  | merged _ removed => exact removed name hv

theorem member?_within (name : String) {v : Json} (h : Patched t (.object fields) r)
    (hv : Assoc.find? fields name = some v) (hnull : v ≠ .null) :
    ∃ x, r.member? name = some x ∧ Patched (t.bind (·.member? name)) v x := by
  cases h with
  | replaced hp => cases hp
  | merged _ _ kept within =>
    obtain ⟨x, hx⟩ := Option.isSome_iff_exists.mp (kept name v hv hnull)
    exact ⟨x, hx, within name v x hv hnull hx⟩

/-- What is no map takes the place of what was there. -/
theorem member?_plain {v : Json} (h : Patched t (.object fields) r)
    (hv : Assoc.find? fields name = some v) (hnull : v ≠ .null) (hp : v.members? = none) :
    r.member? name = some v := by
  obtain ⟨x, hx, hwithin⟩ := h.member?_within name hv hnull
  rw [hx, hwithin.eq_of_plain hp]

end Members

/-- There is one result only. -/
theorem unique {t : Option Json} {p r r' : Json} (h : Patched t p r) (h' : Patched t p r')
    (hr : r.Ordered) (hr' : r'.Ordered) : r = r' := by
  induction h generalizing r' with
  | replaced hp => exact (h'.eq_of_plain hp).symm
  | @merged t fields m untouched removed kept within ih =>
    cases h' with
    | replaced hp => cases hp
    | @merged _ _ m' untouched' removed' kept' within' =>
      have hfind : ∀ name, Assoc.find? m name = Assoc.find? m' name := by
        intro name
        cases hv : Assoc.find? fields name with
        | none => rw [untouched name hv, untouched' name hv]
        | some v =>
          by_cases hnull : v = .null
          · subst hnull
            rw [removed name hv, removed' name hv]
          · obtain ⟨r, hm⟩ := Option.isSome_iff_exists.mp (kept name v hv hnull)
            obtain ⟨r', hm'⟩ := Option.isSome_iff_exists.mp (kept' name v hv hnull)
            have hsame := ih name v r hv hnull hm (within' name v r' hv hnull hm') (hr.find? hm)
              (hr'.find? hm')
            rw [hm, hm', hsame]
      rw [Assoc.ext (ordered_object.mp hr).1 (ordered_object.mp hr').1 hfind]

/-- What a patch has made is what it makes of it. -/
theorem again {t : Option Json} {p r : Json} (h : Patched t p r) : Patched (some r) p r := by
  induction h with
  | replaced hp => exact .replaced hp
  | @merged t fields m untouched removed kept within ih =>
    refine .merged (fun _ _ => rfl) removed kept ?_
    intro name v r hv hnull hm
    have hmember : (some (object m)).bind (·.member? name) = some r := hm
    rw [hmember]
    exact ih name v r hv hnull hm

end Patched

mutual

theorem patched_mergePatch : (p : Json) → p.Ordered → ∀ t : Json,
    Patched (some t) p (t.mergePatch p)
  | .object fields, hp, t => by
    rw [mergePatch]
    rw [Ordered] at hp
    obtain ⟨hs, hf⟩ := hp
    have hfind := find?_mergeMembers hs t.membersOrNone
    refine .merged ?_ ?_ ?_ ?_
    · intro name hv
      rw [hfind, hv]
      exact find?_membersOrNone t name
    · intro name hv
      rw [hfind, hv]
      exact if_pos rfl
    · intro name v hv hnull
      rw [hfind, hv]
      simp [hnull]
    · intro name v r hv hnull hm
      rw [hfind, hv] at hm
      simp only [if_neg hnull, find?_membersOrNone, Option.some.injEq] at hm
      subst hm
      have hwithin := patched_member fields hf hv
      change Patched (t.member? name) v _
      cases hold : t.member? name with
      | none => exact (hwithin .null).of_memberless fun _ => rfl
      | some old => exact hwithin old
  | .null, _, _ | .bool _, _, _ | .number _, _, _ | .string _, _, _ | .array _, _, _ =>
    .replaced rfl

theorem patched_member : (fields : Members) → membersOrdered fields → ∀ {name : String} {v : Json},
    Assoc.find? fields name = some v → ∀ t : Json, Patched (some t) v (t.mergePatch v)
  | [], _, _, _, hv => by cases hv
  | (k, w) :: rest, hf, name, v, hv => by
    rw [membersOrdered] at hf
    rw [Assoc.find?] at hv
    split at hv
    · cases hv
      exact patched_mergePatch w hf.1
    · exact patched_member rest hf.2 hv

end

/-- Applied twice, a patch does what it does once. -/
theorem mergePatch_idempotent {t p : Json} (ht : t.Ordered) (hp : p.Ordered) :
    (t.mergePatch p).mergePatch p = t.mergePatch p := by
  have honce := ordered_mergePatch p hp ht
  have htwice := ordered_mergePatch p hp honce
  exact (patched_mergePatch p hp _).unique (patched_mergePatch p hp t).again htwice honce

end FedTrack.Json
