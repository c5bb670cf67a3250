import FedTrack.Proofs.Store.Landing

namespace FedTrack

theorem rel_cases {α β : Type} {R : α → β → Prop} {x : Option α} {y : Option β}
    (h : Option.Rel R x y) :
    (x = none ∧ y = none) ∨ ∃ a b, x = some a ∧ y = some b ∧ R a b := by
  cases h with
  | none => exact Or.inl ⟨rfl, rfl⟩
  | some h => exact Or.inr ⟨_, _, rfl, rfl, h⟩

theorem rel_imp {α β : Type} {R S : α → β → Prop} {x : Option α} {y : Option β}
    (h : Option.Rel R x y) (himp : ∀ a b, R a b → S a b) : Option.Rel S x y := by
  cases h with
  | none => exact .none
  | some h => exact .some (himp _ _ h)

/-- What an object is but for its uid and its version. -/
def Object.core (o : Object) : Object :=
  { o with metadata := { o.metadata with uid := none, resourceVersion := none } }

namespace Object

variable {o p : Object}

theorem name_of_core (h : o.core = p.core) : o.name = p.name := by
  have hn : o.core.name = p.core.name := congrArg name h
  exact hn

theorem data_of_core (h : o.core = p.core) : o.data = p.data := by
  have hd : o.core.data = p.core.data := congrArg data h
  exact hd

@[simp] theorem core_setResourceVersion (o : Object) (version : Option String) :
    (o.setResourceVersion version).core = o.core := rfl

/-- Objects that are alike remain so when their data changes in the same way. -/
theorem core_withData (h : o.core = p.core) (data : Json) :
    core { o with data := data } = core { p with data := data } :=
  congrArg (fun o : Object => { o with data := data }) h

end Object

namespace MemoryStore

def version? (s : MemoryStore) (kind : Kind) (name : Name) : Option String :=
  (s.find? kind name).bind (·.metadata.resourceVersion)

/-- Two stores, compared at names that have the property `N`. Versions correspond if at each such
name one of them is stored exactly if the other is. -/
inductive Tied (N : Name → Prop) (s t : MemoryStore) : Option String → Option String → Prop
  | neither : Tied N s t none none
  | both {v w : String} (hv : s.Issued v) (hw : t.Issued w)
      (h : ∀ kind name, N name → (s.version? kind name = some v ↔ t.version? kind name = some w)) :
      Tied N s t (some v) (some w)

/-- Objects that are the same but for their uids, with corresponding versions. -/
structure Alike (N : Name → Prop) (s t : MemoryStore) (o p : Object) : Prop where
  core : o.core = p.core
  tied : Tied N s t o.metadata.resourceVersion p.metadata.resourceVersion

/-- Two stores that nobody can tell apart who only uses names with the property `N`. -/
structure Twin (N : Name → Prop) (s t : MemoryStore) : Prop where
  sound : s.Sound ∧ t.Sound
  faultless : s.faults = [] ∧ t.faults = []
  alike : ∀ kind name, N name →
    Option.Rel (Alike N s t) (s.find? kind name) (t.find? kind name)

/-- Steps of two stores that agree on the names with the property `N`: there both leave an object as
it is, or both put an object of the next version in its place. -/
structure Abreast (N : Name → Prop) (s t s' t' : MemoryStore) : Prop where
  onward : s.nextVersion ≤ s'.nextVersion ∧ t.nextVersion ≤ t'.nextVersion
  places : ∀ kind name, N name →
    (s'.find? kind name = s.find? kind name ∧ t'.find? kind name = t.find? kind name) ∨
    (s.nextVersion < s'.nextVersion ∧ t.nextVersion < t'.nextVersion) ∧
      ∃ o p : Object, s'.find? kind name = some o ∧ t'.find? kind name = some p ∧
        o.core = p.core ∧ o.metadata.resourceVersion = some (toString s.nextVersion) ∧
        p.metadata.resourceVersion = some (toString t.nextVersion)

variable {N : Name → Prop} {s t s' t' : MemoryStore}

theorem issued_of_version? (h : s.Sound) {kind : Kind} {name : Name} {v : String}
    (hv : s.version? kind name = some v) : s.Issued v := by
  obtain ⟨o, ho, hov⟩ := Option.bind_eq_some_iff.mp hv
  obtain ⟨w, hw, hi⟩ := h.issued kind name o ho
  cases hw.symm.trans hov
  exact hi

theorem version?_of_find? {kind : Kind} {name : Name} {o : Object}
    (h : s.find? kind name = some o) : s.version? kind name = o.metadata.resourceVersion := by
  rw [version?, h]
  rfl

theorem version?_congr {kind : Kind} {name : Name} (h : s'.find? kind name = s.find? kind name) :
    s'.version? kind name = s.version? kind name := by
  rw [version?, h, version?]

theorem Tied.refl (N : Name → Prop) {version : Option String}
    (hi : ∀ v, version = some v → s.Issued v) : Tied N s s version version := by
  cases version with
  | none => exact .neither
  | some v => exact .both (hi v rfl) (hi v rfl) fun _ _ _ => Iff.rfl

/-- A version that has been handed out is never empty. -/
theorem Tied.filter {v w : Option String} (h : Tied N s t v w) :
    Tied N s t (v.filter (· ≠ "")) (w.filter (· ≠ "")) := by
  have hne {s : MemoryStore} {v : String} (hv : s.Issued v) : v ≠ "" := by
    obtain ⟨n, -, rfl⟩ := hv
    intro he
    have hl := congrArg String.toList he
    rw [Nat.toString_eq_repr, Nat.toList_repr] at hl
    exact Nat.toDigits_ne_nil hl
  cases h with
  | neither => exact .neither
  | @both v w hv hw h =>
    rw [Option.filter_some, Option.filter_some]
    simp only [ne_eq, hne hv, hne hw, not_false_eq_true, decide_true, if_true]
    exact .both hv hw h

namespace Abreast

/-- Corresponding versions go on to do so. -/
theorem tied (h : Abreast N s t s' t') {v w : Option String} (hvw : Tied N s t v w) :
    Tied N s' t' v w := by
  cases hvw with
  | neither => exact .neither
  | @both v w hv hw hiff =>
    refine .both (hv.mono h.onward.1) (hw.mono h.onward.2) ?_
    intro kind name hn
    rcases h.places kind name hn with ⟨ho, hp⟩ | ⟨-, o, p, ho, hp, -, hov, hpv⟩
    · rw [version?_congr ho, version?_congr hp]
      exact hiff kind name hn
    · -- the next version is neither of the two
      rw [version?_of_find? ho, version?_of_find? hp, hov, hpv]
      constructor
      · intro he
        cases he
        exact absurd hv s.not_issued_next
      · intro he
        cases he
        exact absurd hw t.not_issued_next

theorem alike (h : Abreast N s t s' t') {o p : Object} (ho : Alike N s t o p) :
    Alike N s' t' o p := ⟨ho.core, h.tied ho.tied⟩

/-- The next versions correspond. -/
theorem tied_next (h : Abreast N s t s' t') (hs : s.Sound) (ht : t.Sound)
    (hlt : s.nextVersion < s'.nextVersion ∧ t.nextVersion < t'.nextVersion) :
    Tied N s' t' (some (toString s.nextVersion)) (some (toString t.nextVersion)) := by
  refine .both (issued_next hlt.1) (issued_next hlt.2) ?_
  intro kind name hn
  rcases h.places kind name hn with ⟨ho, hp⟩ | ⟨-, o, p, ho, hp, -, hov, hpv⟩
  · rw [version?_congr ho, version?_congr hp]
    constructor
    · intro he
      exact absurd (issued_of_version? hs he) s.not_issued_next
    · intro he
      exact absurd (issued_of_version? ht he) t.not_issued_next
  · rw [version?_of_find? ho, version?_of_find? hp, hov, hpv]
    exact ⟨fun _ => rfl, fun _ => rfl⟩

theorem twin (h : Abreast N s t s' t') (htwin : Twin N s t) (hsound : s'.Sound ∧ t'.Sound)
    (hfaultless : s'.faults = [] ∧ t'.faults = []) : Twin N s' t' := by
  refine ⟨hsound, hfaultless, ?_⟩
  intro kind name hn
  rcases h.places kind name hn with ⟨ho, hp⟩ | ⟨hlt, o, p, ho, hp, hc, hov, hpv⟩
  · rw [ho, hp]
    exact rel_imp (htwin.alike kind name hn) fun _ _ => h.alike
  · rw [ho, hp]
    refine .some ⟨hc, ?_⟩
    rw [hov, hpv]
    exact h.tied_next htwin.sound.1 htwin.sound.2 hlt

theorem of_objects (hs : s'.objects = s.objects) (ht : t'.objects = t.objects)
    (hns : s'.nextVersion = s.nextVersion) (hnt : t'.nextVersion = t.nextVersion) :
    Abreast N s t s' t' where
  onward := ⟨Nat.le_of_eq hns.symm, Nat.le_of_eq hnt.symm⟩
  places kind name _ := Or.inl ⟨find?_congr hs kind name, find?_congr ht kind name⟩

end Abreast

theorem Twin.refl (hs : s.Sound) (hf : s.faults = []) (N : Name → Prop) : Twin N s s := by
  refine ⟨⟨hs, hs⟩, ⟨hf, hf⟩, ?_⟩
  intro kind name _
  cases ho : s.find? kind name with
  | none => exact .none
  | some o =>
    refine .some ⟨rfl, .refl N ?_⟩
    intro v hv
    obtain ⟨w, hw, hi⟩ := hs.issued kind name o ho
    cases hw.symm.trans hv
    exact hi

/-- Calls that do the same to two stores, as far as the names with the property `N` go. -/
inductive Matching (N : Name → Prop) (s t : MemoryStore) : Call → Call → Prop
  | list (scope : Option String) : Matching N s t (.list scope) (.list scope)
  | get {name : Name} (hn : N name) : Matching N s t (.get name) (.get name)
  | create {o p : Object} (hn : N o.name) (hc : o.core = p.core) :
      Matching N s t (.create o) (.create p)
  | updateStatus {o p : Object} (hn : N o.name) (ha : Alike N s t o p) :
      Matching N s t (.updateStatus o) (.updateStatus p)

theorem Matching.onward {c d : Call} (h : Matching N s t c d) (ha : Abreast N s t s' t') :
    Matching N s' t' c d := by
  cases h with
  | list scope => exact .list scope
  | get hn => exact .get hn
  | create hn hc => exact .create hn hc
  | updateStatus hn ho => exact .updateStatus hn (ha.alike ho)

/-- Answers that nobody can tell apart who only uses names with the property `N` and reads no
text of a conflict. -/
inductive Answering (N : Name → Prop) (s t : MemoryStore) : Outcome → Outcome → Prop
  | listed {l l' : List Object} (h : ∀ name, N name → Option.Rel (Alike N s t)
      (l.filter fun o => o.name = name).getLast? (l'.filter fun o => o.name = name).getLast?) :
      Answering N s t (.ok (.objects l)) (.ok (.objects l'))
  | found {o p : Option Object} (h : Option.Rel (Alike N s t) o p) :
      Answering N s t (.ok (.found o)) (.ok (.found p))
  | stored {o p : Object} (h : Alike N s t o p) :
      Answering N s t (.ok (.stored o)) (.ok (.stored p))
  | failed (e : StoreError) : Answering N s t (.error e) (.error e)
  | conflict (m m' : String) :
      Answering N s t (.error (.versionConflict m)) (.error (.versionConflict m'))

theorem Answering.onward {o p : Outcome} (h : Answering N s t o p) (ha : Abreast N s t s' t') :
    Answering N s' t' o p := by
  cases h with
  | listed h => exact .listed fun name hn => rel_imp (h name hn) fun _ _ => ha.alike
  | found h => exact .found (rel_imp h fun _ _ => ha.alike)
  | stored h => exact .stored (ha.alike h)
  | failed e => exact .failed e
  | conflict m m' => exact .conflict m m'

/-- Of all objects that are listed one at most has a given name. -/
theorem getLast?_listed (hs : s.Filed) (kind : Kind) (scope : Option String) (name : Name) :
    (((s.ofKind kind).filter fun o => inScope scope o.name).filter
        fun o => o.name = name).getLast? =
      if inScope scope name then s.find? kind name else none := by
  generalize hl : List.filter _ (List.filter _ (s.ofKind kind)) = l
  have hmem {o : Object} : o ∈ l ↔ s.find? kind name = some o ∧ inScope scope name = true := by
    rw [← hl]
    simp only [List.mem_filter, decide_eq_true_eq, hs.mem_ofKind]
    constructor
    · rintro ⟨⟨ho, hscope⟩, rfl⟩
      exact ⟨ho, hscope⟩
    · rintro ⟨ho, hscope⟩
      have hname : o.name = name := hs kind name o ho
      subst hname
      exact ⟨⟨ho, hscope⟩, rfl⟩
  cases hlast : l.getLast? with
  | none =>
    split
    · rename_i hscope
      cases ho : s.find? kind name with
      | none => rfl
      | some o =>
        have ho' := hmem.mpr ⟨ho, hscope⟩
        rw [List.getLast?_eq_none_iff.mp hlast] at ho'
        cases ho'
    · rfl
  | some o =>
    obtain ⟨ho, hscope⟩ := hmem.mp (List.mem_of_getLast? hlast)
    rw [if_pos hscope, ho]

theorem checkVersion_twin {stored stored' o p : Object} {kind : Kind} {name : Name} (hn : N name)
    (hs : s.find? kind name = some stored) (ht : t.find? kind name = some stored')
    (ho : Alike N s t o p) :
    (checkVersion stored o = none ∧ checkVersion stored' p = none) ∨
      ∃ m m', checkVersion stored o = some (.versionConflict m) ∧
        checkVersion stored' p = some (.versionConflict m') := by
  have htied := ho.tied.filter
  rw [← Object.resourceVersion, ← Object.resourceVersion] at htied
  unfold checkVersion
  generalize o.resourceVersion = v at htied
  generalize p.resourceVersion = w at htied
  cases htied with
  | neither => exact Or.inl ⟨rfl, rfl⟩
  | @both v w _ _ hiff =>
    have hvw := hiff kind name hn
    rw [version?_of_find? hs, version?_of_find? ht] at hvw
    dsimp only
    by_cases hv : stored.metadata.resourceVersion = some v
    · rw [if_pos hv, if_pos (hvw.mp hv)]
      exact Or.inl ⟨rfl, rfl⟩
    · rw [if_neg hv, if_neg fun hw => hv (hvw.mpr hw)]
      exact Or.inr ⟨_, _, rfl, rfl⟩

/-- Both stores get the next version of an object. -/
theorem abreast_of_insert {kind : Kind} {name : Name} {o p : Object}
    (hs : s'.objects = s.objects.insert (kind, name) o)
    (ht : t'.objects = t.objects.insert (kind, name) p)
    (hns : s'.nextVersion = s.nextVersion + 1) (hnt : t'.nextVersion = t.nextVersion + 1)
    (hc : o.core = p.core) (ho : o.resourceVersion = some (toString s.nextVersion))
    (hp : p.resourceVersion = some (toString t.nextVersion)) : Abreast N s t s' t' where
  onward := ⟨hns ▸ Nat.le_succ _, hnt ▸ Nat.le_succ _⟩
  places k n _ := by
    rw [find?_of_insert hs, find?_of_insert ht]
    by_cases he : kind = k ∧ name = n
    · rw [if_pos he, if_pos he]
      exact Or.inr ⟨⟨hns ▸ Nat.lt_succ_self _, hnt ▸ Nat.lt_succ_self _⟩, o, p, rfl, rfl, hc,
        (Option.filter_eq_some_iff.mp ho).1, (Option.filter_eq_some_iff.mp hp).1⟩
    · rw [if_neg he, if_neg he]
      exact Or.inl ⟨rfl, rfl⟩

@[simp] theorem core_stampNew (s : MemoryStore) (o : Object) :
    (s.stampNew o).2.core = o.core := by
  unfold stampNew stampUid stampVersion
  dsimp only
  split <;> rfl

namespace Twin

/-- Both stores get the next version of an object and answer with it. -/
theorem store (h : Twin N s t) (kind : Kind) (name : Name) {o p : Object}
    (hs : s'.objects = s.objects.insert (kind, name) o)
    (ht : t'.objects = t.objects.insert (kind, name) p)
    (hns : s'.nextVersion = s.nextVersion + 1) (hnt : t'.nextVersion = t.nextVersion + 1)
    (hc : o.core = p.core) (ho : o.resourceVersion = some (toString s.nextVersion))
    (hp : p.resourceVersion = some (toString t.nextVersion)) :
    Abreast N s t s' t' ∧ Answering N s' t' (.ok (.stored o)) (.ok (.stored p)) := by
  have ha : Abreast N s t s' t' := abreast_of_insert hs ht hns hnt hc ho hp
  refine ⟨ha, .stored ⟨hc, ?_⟩⟩
  rw [(Option.filter_eq_some_iff.mp ho).1, (Option.filter_eq_some_iff.mp hp).1]
  exact ha.tied_next h.sound.1 h.sound.2 ⟨hns ▸ Nat.lt_succ_self _, hnt ▸ Nat.lt_succ_self _⟩

theorem commit_create (h : Twin N s t) (kind : Kind) {o p : Object} (hn : N o.name)
    (hc : o.core = p.core) :
    Abreast N s t (s.commit kind (.create o)).1 (t.commit kind (.create p)).1 ∧
      Answering N (s.commit kind (.create o)).1 (t.commit kind (.create p)).1
        (s.commit kind (.create o)).2 (t.commit kind (.create p)).2 := by
  have hname := Object.name_of_core hc
  have hdata := Object.data_of_core hc
  unfold commit
  dsimp only
  rw [← hname, ← hdata]
  rcases rel_cases (h.alike kind o.name hn) with ⟨hs, ht⟩ | ⟨a, b, hs, ht, -⟩
  · rw [hs, ht]
    dsimp only
    refine h.store kind o.name ?_ ?_ ?_ ?_ ?_ (resourceVersion_stampNew s _)
      (resourceVersion_stampNew t _)
    · simp [succeed, put]
    · simp [succeed, put]
    · simp [succeed, put]
    · simp [succeed, put]
    · rw [core_stampNew, core_stampNew]
      exact Object.core_withData hc _
  · rw [hs, ht]
    exact ⟨.of_objects rfl rfl rfl rfl, .failed _⟩

theorem commit_updateStatus (h : Twin N s t) (kind : Kind) {o p : Object} (hn : N o.name)
    (ha : Alike N s t o p) :
    Abreast N s t (s.commit kind (.updateStatus o)).1 (t.commit kind (.updateStatus p)).1 ∧
      Answering N (s.commit kind (.updateStatus o)).1 (t.commit kind (.updateStatus p)).1
        (s.commit kind (.updateStatus o)).2 (t.commit kind (.updateStatus p)).2 := by
  have hname := Object.name_of_core ha.core
  have hdata := Object.data_of_core ha.core
  unfold commit
  dsimp only
  rw [← hname]
  rcases rel_cases (h.alike kind o.name hn) with ⟨hs, ht⟩ | ⟨a, b, hs, ht, hab⟩
  · rw [hs, ht]
    exact ⟨.of_objects rfl rfl rfl rfl, .failed _⟩
  · rw [hs, ht]
    dsimp only
    rcases checkVersion_twin hn hs ht ha with ⟨hco, hcp⟩ | ⟨m, m', hco, hcp⟩
    · rw [hco, hcp]
      refine h.store kind o.name rfl rfl rfl rfl ?_ (resourceVersion_stamp _ _)
        (resourceVersion_stamp _ _)
      rw [Object.core_setResourceVersion, Object.core_setResourceVersion, withStatus, withStatus,
        ← hdata, ← Object.data_of_core hab.core]
      exact Object.core_withData hab.core _
    · rw [hco, hcp]
      exact ⟨.of_objects rfl rfl rfl rfl, .conflict m m'⟩

theorem commit (h : Twin N s t) (kind : Kind) {c d : Call} (hc : Matching N s t c d) :
    Abreast N s t (s.commit kind c).1 (t.commit kind d).1 ∧
      Answering N (s.commit kind c).1 (t.commit kind d).1
        (s.commit kind c).2 (t.commit kind d).2 := by
  cases hc with
  | list scope =>
    have ha : Abreast N s t (s.commit kind (.list scope)).1 (t.commit kind (.list scope)).1 :=
      .of_objects rfl rfl rfl rfl
    refine ⟨ha, .listed ?_⟩
    intro name hn
    rw [getLast?_listed h.sound.1.filed, getLast?_listed h.sound.2.filed]
    split
    · exact rel_imp (h.alike kind name hn) fun _ _ => ha.alike
    · exact .none
  | @get name hn =>
    have ha : Abreast N s t (s.commit kind (.get name)).1 (t.commit kind (.get name)).1 :=
      .of_objects rfl rfl rfl rfl
    exact ⟨ha, .found (rel_imp (h.alike kind name hn) fun _ _ => ha.alike)⟩
  | create hn hc => exact h.commit_create kind hn hc
  | updateStatus hn ha => exact h.commit_updateStatus kind hn ha

/-- Both stores answer a call. -/
theorem perform (h : Twin N s t) (kind : Kind) {c d : Call} (hc : Matching N s t c d) :
    Abreast N s t (s.perform kind c).1 (t.perform kind d).1 ∧
      Twin N (s.perform kind c).1 (t.perform kind d).1 ∧
      Answering N (s.perform kind c).1 (t.perform kind d).1
        (s.perform kind c).2 (t.perform kind d).2 := by
  obtain ⟨hs, ht⟩ := h.faultless
  rw [perform_faultless hs, perform_faultless ht]
  -- that the calls are counted changes nothing that matters
  have hcount : Abreast N s t { s with attempts := s.attempts.bump c.operation }
      { t with attempts := t.attempts.bump d.operation } := .of_objects rfl rfl rfl rfl
  have hcounted := hcount.twin h ⟨h.sound.1.congr rfl rfl, h.sound.2.congr rfl rfl⟩ ⟨hs, ht⟩
  obtain ⟨ha, hanswer⟩ := hcounted.commit kind (hc.onward hcount)
  refine ⟨⟨ha.onward, ha.places⟩, ha.twin hcounted ?_ ?_, hanswer⟩
  · exact ⟨(landed_commit hcounted.sound.1.filed kind c).sound hcounted.sound.1,
      (landed_commit hcounted.sound.2.filed kind d).sound hcounted.sound.2⟩
  · rw [faults_commit, faults_commit]
    exact ⟨hs, ht⟩

end Twin

/-- The first store does a step that the second one does not. -/
theorem abreast_of_elsewhere (hle : s.nextVersion ≤ s'.nextVersion)
    (h : ∀ kind name, N name → s'.find? kind name = s.find? kind name) : Abreast N s t s' t where
  onward := ⟨hle, Nat.le_refl _⟩
  places kind name hn := Or.inl ⟨h kind name hn, rfl⟩

end MemoryStore

end FedTrack
