import FedTrack.Settings.Layers
import Mathlib.Data.List.Infix
import Mathlib.Data.List.Induction

namespace FedTrack

namespace FileTree

variable {t : FileTree} {base : Location} {path : String}

/-- The text of the file that a path leads to from the innermost directory from which it leads to
one, of `base` and those around it. -/
inductive Nearest (t : FileTree) (base : Location) (path : String) : Option String → Prop
  | found {l : Location} {text : String} (around : l <+: base)
      (leads : t.text? l path = some text)
      (innermost : ∀ m, m <+: base → l <+: m → m ≠ l → t.text? m path = none) :
      Nearest t base path (some text)
  | absent (nowhere : ∀ l, l <+: base → t.text? l path = none) : Nearest t base path none

/-- Where a path leads to at once is nearest. -/
theorem Nearest.here {text : String} (h : t.text? base path = some text) :
    Nearest t base path (some text) :=
  .found List.prefix_rfl h fun _ hm hb hne =>
    absurd (hm.eq_of_length_le hb.length_le) hne

theorem Nearest.unique {a b : Option String} (ha : Nearest t base path a)
    (hb : Nearest t base path b) : a = b := by
  cases ha with
  | absent nowhere =>
    cases hb with
    | absent => rfl
    | found around leads =>
      rw [nowhere _ around] at leads
      cases leads
  | @found l text around leads innermost =>
    cases hb with
    | absent nowhere =>
      rw [nowhere _ around] at leads
      cases leads
    | @found l' text' around' leads' innermost' =>
      have hl : l = l' := by
        by_contra hne
        rcases List.prefix_or_prefix_of_prefix around around' with h | h
        · rw [innermost l' around' h (Ne.symm hne)] at leads'
          cases leads'
        · rw [innermost' l around h hne] at leads
          cases leads
      subst hl
      rw [← leads, ← leads']

theorem outwards_concat (l : Location) (name : String) :
    outwards (l ++ [name]) = (l ++ [name]) :: outwards l := by
  have hrest (n : Nat) : (l ++ [name]).take (l.length + 1 - (n + 1)) = l.take (l.length - n) := by
    rw [Nat.add_sub_add_right, List.take_append_of_le_length (Nat.sub_le _ _)]
  rw [outwards, List.length_append, List.length_singleton, List.range_succ_eq_map, List.map_cons,
    List.map_map, outwards]
  congr 1
  · rw [Nat.sub_zero, ← List.length_singleton (a := name), ← List.length_append, List.take_length]
  · exact List.map_congr_left fun n _ => hrest n

theorem nearest_findSome? (t : FileTree) (base : Location) (path : String) :
    Nearest t base path ((outwards base).findSome? fun l => t.text? l path) := by
  induction base using List.reverseRecOn with
  | nil =>
    change Nearest t [] path ([[]].findSome? _)
    rw [List.findSome?_cons]
    cases h : t.text? [] path with
    | some text => exact .here h
    | none => exact .absent fun l hl => by rw [List.prefix_nil.mp hl, h]
  | append_singleton l name ih =>
    rw [outwards_concat, List.findSome?_cons]
    cases h : t.text? (l ++ [name]) path with
    | some text => exact .here h
    | none =>
      dsimp only
      generalize (outwards l).findSome? _ = text at ih ⊢
      cases ih with
      | found around leads innermost =>
        refine .found (around.trans (List.prefix_append l [name])) leads fun m hm hb hne => ?_
        rcases List.prefix_concat_iff.mp hm with rfl | hm
        · exact h
        · exact innermost m hm hb hne
      | absent nowhere =>
        refine .absent fun m hm => ?_
        rcases List.prefix_concat_iff.mp hm with rfl | hm
        · exact h
        · exact nowhere m hm

/-- A path from the root leads to the same from everywhere. -/
theorem text?_of_rooted (h : (namesOf path).1 = true) (l m : Location) :
    t.text? l path = t.text? m path := by
  have hl : t.lookup? l path = t.lookup? m path := by
    rw [lookup?, lookup?]
    split
    · rfl
    · rename_i hn
      rw [hn] at h
      cases h
  rw [text?, text?, hl]

theorem nearest_nearestText? (t : FileTree) (base : Location) (path : String) :
    Nearest t base path (t.nearestText? base path) := by
  rw [nearestText?]
  split
  · rename_i hroot
    cases h : t.text? [] path with
    | some text => exact .here ((text?_of_rooted hroot base []).trans h)
    | none => exact .absent fun l _ => (text?_of_rooted hroot l []).trans h
  · exact nearest_findSome? t base path

theorem text?_eq_some {text : String} :
    t.text? base path = some text ↔ t.lookup? base path = some (.file text) := by
  rw [text?]
  split
  · rename_i h
    rw [h]
    simp
  · rename_i h
    constructor
    · intro hn
      cases hn
    · intro hl
      exact absurd hl (h text)

end FileTree

/-- A directory has no text. -/
def FileEntry.text? : FileEntry → Option String
  | .file text => some text
  | .directory => none

namespace Settings

variable {w : Surroundings} {o : Options}

theorem textAt_eq {l : Location} {e : FileEntry} (h : w.files.entry? l = some e) :
    textAt w.files l = e.text? := by
  rw [textAt, h]
  cases e <;> rfl

/-- The text of the settings file, for the path of one that is named or for none. -/
inductive SettingsFile (w : Surroundings) : Option String → Option String → Prop
  | named {path text : String}
      (leads : w.files.lookup? w.workingDirectory path = some (.file text)) :
      SettingsFile w (some path) (some text)
  /-- The path of a directory is looked for in the directories around. -/
  | around {path : String} {text : Option String}
      (leads : w.files.lookup? w.workingDirectory path = some .directory)
      (nearest : w.files.Nearest w.workingDirectory path text) : SettingsFile w (some path) text
  | beside {e : FileEntry} (there : w.files.entry? (w.workingDirectory ++ [fileName]) = some e) :
      SettingsFile w none e.text?
  | ofUser {e : FileEntry} (notBeside : w.files.entry? (w.workingDirectory ++ [fileName]) = none)
      (there : w.files.entry? (userFile w) = some e) : SettingsFile w none e.text?
  | absent (notBeside : w.files.entry? (w.workingDirectory ++ [fileName]) = none)
      (notOfUser : w.files.entry? (userFile w) = none) : SettingsFile w none none

/-- What is read for a path is the text of the file that it leads to, but for a directory where there
is a file around. -/
theorem SettingsFile.text?_iff {path : String} {text : Option String}
    (h : SettingsFile w (some path) text) : text = w.files.text? w.workingDirectory path ↔
      (w.files.lookup? w.workingDirectory path = some .directory → text = none) := by
  cases h with
  | named leads =>
    rw [FileTree.text?_eq_some.mpr leads, leads]
    exact iff_of_true rfl nofun
  | around leads nearest => simp [FileTree.text?, leads]

theorem fileText_named {path : String} {text : Option String} (h : o.config = some path) :
    fileText w o = .ok text ↔ SettingsFile w (some path) text := by
  have hnear := w.files.nearest_nearestText? w.workingDirectory path
  constructor
  · intro he
    simp only [fileText, h] at he
    cases hl : w.files.lookup? w.workingDirectory path with
    | none => simp [hl] at he
    | some e =>
      simp only [hl, Option.isSome_some, if_true, Except.ok.injEq] at he
      subst he
      cases e with
      | directory => exact .around hl hnear
      | file text =>
        rw [hnear.unique (.here (FileTree.text?_eq_some.mpr hl))]
        exact .named hl
  · intro hs
    cases hs with
    | named leads =>
      have htext := hnear.unique (.here (FileTree.text?_eq_some.mpr leads))
      simp only [fileText, h, leads, Option.isSome_some, if_true, htext]
    | around leads nearest =>
      simp only [fileText, h, leads, Option.isSome_some, if_true, hnear.unique nearest]

theorem fileText_unnamed {text : Option String} (h : o.config = none) :
    fileText w o = .ok text ↔ SettingsFile w none text := by
  constructor
  · intro he
    simp only [fileText, h, List.find?_cons, List.find?_nil] at he
    cases hb : w.files.entry? (w.workingDirectory ++ [fileName]) with
    | some e =>
      simp only [hb, Option.isSome_some, textAt_eq hb, Except.ok.injEq] at he
      subst he
      exact .beside hb
    | none =>
      cases hu : w.files.entry? (userFile w) with
      | some e =>
        simp only [hb, hu, Option.isSome_none, Option.isSome_some, textAt_eq hu,
          Except.ok.injEq] at he
        subst he
        exact .ofUser hb hu
      | none =>
        simp only [hb, hu, Option.isSome_none, Except.ok.injEq] at he
        subst he
        exact .absent hb hu
  · intro hs
    cases hs with
    | beside there => simp [fileText, h, there, textAt_eq there]
    | ofUser notBeside there => simp [fileText, h, notBeside, there, textAt_eq there]
    | absent notBeside notOfUser => simp [fileText, h, notBeside, notOfUser]

/-- Where the text of the settings file comes from. -/
theorem fileText_eq_ok {text : Option String} :
    fileText w o = .ok text ↔ SettingsFile w o.config text := by
  cases h : o.config with
  | some path => exact fileText_named h
  | none => exact fileText_unnamed h

end Settings

end FedTrack
