import FedTrack.Name

namespace FedTrack.Name

theorem splitSlash_eq_none {cs : List Char} : splitSlash cs = none ↔ '/' ∉ cs := by
  induction cs with
  | nil => simp [splitSlash]
  | cons c cs ih =>
    by_cases hc : c = '/'
    · simp [splitSlash, hc]
    · simp [splitSlash, hc, ih, Ne.symm hc]

theorem splitSlash_append {before : List Char} (h : '/' ∉ before) (after : List Char) :
    splitSlash (before ++ '/' :: after) = some (before, after) := by
  induction before with
  | nil => simp [splitSlash]
  | cons c before ih =>
    simp only [List.mem_cons, not_or] at h
    simp [splitSlash, Ne.symm h.1, ih h.2]

/-- A text is split into both sides of its first slash. -/
theorem splitSlash_eq_some {cs before after : List Char} :
    splitSlash cs = some (before, after) ↔ cs = before ++ '/' :: after ∧ '/' ∉ before := by
  constructor
  · intro h
    induction cs generalizing before with
    | nil => cases h
    | cons c cs ih =>
      simp only [splitSlash] at h
      split at h
      · rename_i hc
        subst hc
        cases h
        exact ⟨rfl, List.not_mem_nil⟩
      · rename_i hc
        obtain ⟨⟨before, after⟩, hsplit, he⟩ := Option.map_eq_some_iff.mp h
        cases he
        obtain ⟨rfl, hno⟩ := ih hsplit
        exact ⟨rfl, by simp [Ne.symm hc, hno]⟩
  · rintro ⟨rfl, hno⟩
    exact splitSlash_append hno after

theorem toList_display (q : Name) : q.display.toList =
    if q.scope = "" then q.name.toList else q.scope.toList ++ '/' :: q.name.toList := by
  unfold display
  split
  · rfl
  · simp

/-- A name is what a text is parsed to exactly if its parts are the two sides of the first slash, or
the text has no slash and is the name. -/
theorem parse_eq_iff {s : String} {q : Name} : parse s = q ↔
    (s.toList = q.scope.toList ++ '/' :: q.name.toList ∧ '/' ∉ q.scope.toList) ∨
      ('/' ∉ s.toList ∧ q = clusterWide s) := by
  unfold parse
  cases hs : splitSlash s.toList with
  | none =>
    have hno := splitSlash_eq_none.mp hs
    constructor
    · rintro rfl
      exact Or.inr ⟨hno, rfl⟩
    · rintro (⟨he, -⟩ | ⟨-, rfl⟩)
      · rw [he] at hno
        simp at hno
      · rfl
  | some parts =>
    obtain ⟨before, after⟩ := parts
    have hparts := splitSlash_eq_some.mp hs
    constructor
    · rintro rfl
      simpa using Or.inl hparts
    · rintro (hq | ⟨hno, -⟩)
      · obtain ⟨rfl, rfl⟩ :=
          Prod.mk.inj (Option.some.inj (hs.symm.trans (splitSlash_eq_some.mpr hq)))
        simp
      · rw [hparts.1] at hno
        simp at hno

theorem parse_display_iff (q : Name) : parse q.display = q ↔
    (q.scope ≠ "" ∧ '/' ∉ q.scope.toList) ∨ (q.scope = "" ∧ '/' ∉ q.name.toList) := by
  rw [parse_eq_iff, toList_display]
  by_cases hs : q.scope = ""
  · have hq : q = clusterWide q.display := by
      cases q
      simp_all [clusterWide, display]
    -- a text is shorter than what it is one side of
    have hshort : q.name.toList ≠ '/' :: q.name.toList := fun h => by
      simpa using congrArg List.length h
    simp [hs, ← hq, hshort]
  · have hq : q ≠ clusterWide q.display := fun h => hs (congrArg scope h)
    simp [hs, hq]

theorem display_parse_iff (s : String) : (parse s).display = s ↔ s.toList.head? ≠ some '/' := by
  rw [← String.toList_inj, toList_display]
  rcases parse_eq_iff.mp (rfl : parse s = parse s) with ⟨hs, hno⟩ | ⟨hno, hq⟩
  · rw [hs]
    by_cases he : (parse s).scope = ""
    · simp [he]
    · obtain ⟨c, cs, hc⟩ := List.exists_cons_of_ne_nil (mt String.toList_eq_nil_iff.mp he)
      have hslash : c ≠ '/' := by
        rintro rfl
        simp [hc] at hno
      simp [he, hc, hslash]
  · have hhead : s.toList.head? ≠ some '/' := fun h => hno (List.mem_of_mem_head? h)
    rw [hq]
    simp [clusterWide, hhead]

/-- Neither the namespace nor the name has a slash. -/
def Slashless (q : Name) : Prop := '/' ∉ q.scope.toList ∧ '/' ∉ q.name.toList

instance (q : Name) : Decidable q.Slashless := inferInstanceAs (Decidable (_ ∧ _))

theorem parse_display_of_slashless {q : Name} (h : q.Slashless) : parse q.display = q := by
  rw [parse_display_iff]
  by_cases hs : q.scope = ""
  · exact Or.inr ⟨hs, h.2⟩
  · exact Or.inl ⟨hs, h.1⟩

/-- A name is read back from its text exactly if it has a namespace without slash, or no namespace
and a name without slash. A text is the text of the name it is parsed to exactly if it does not
begin with a slash. Names without slashes have different texts. -/
theorem names_display_and_parse :
    (∀ q : Name, parse q.display = q ↔
      (q.scope ≠ "" ∧ '/' ∉ q.scope.toList) ∨ (q.scope = "" ∧ '/' ∉ q.name.toList)) ∧
    (∀ s : String, (parse s).display = s ↔ s.toList.head? ≠ some '/') ∧
    ∀ p q : Name, p.Slashless → q.Slashless → p.display = q.display → p = q := by
  refine ⟨parse_display_iff, display_parse_iff, ?_⟩
  intro p q hp hq h
  rw [← parse_display_of_slashless hp, ← parse_display_of_slashless hq, h]

/-- A slash in the name is kept if there is a namespace. -/
theorem names_display_and_parse_sample :
    let q : Name := ⟨"apps", "a/b"⟩
    parse q.display = q ∧ (parse "apps/a/b").display = "apps/a/b" ∧
      (⟨"", "web"⟩ : Name).Slashless ∧ (⟨"apps", "web"⟩ : Name).Slashless ∧
      (⟨"", "web"⟩ : Name).display ≠ (⟨"apps", "web"⟩ : Name).display := by
  obtain ⟨hdisplay, hparse, hdifferent⟩ := names_display_and_parse
  have hp : (⟨"", "web"⟩ : Name).Slashless := by decide
  have hq : (⟨"apps", "web"⟩ : Name).Slashless := by decide
  refine ⟨(hdisplay _).mpr (by decide), (hparse _).mpr (by decide), hp, hq, ?_⟩
  intro h
  exact absurd (hdifferent _ _ hp hq h) (by decide)

end FedTrack.Name
