import FedTrack.Proofs.Store.Filed
import FedTrack.Proofs.Store.Stamp

namespace FedTrack

/-- The version that has to be the stored one for the call to succeed. -/
def Call.token? : Call → Option String
  | .update o | .updateStatus o => o.resourceVersion
  | _ => none

/-- The name of the only object that the call can change. -/
def Call.target? : Call → Option Name
  | .create o | .update o | .updateStatus o => some o.name
  | .patchMerge name _ => some name
  | .list _ | .get _ => none

namespace MemoryStore

/-- Different numbers make different versions. -/
theorem eq_of_toString_eq {m n : Nat} (h : toString m = toString n) : m = n := by
  have hdigits : Nat.toDigits 10 m = Nat.toDigits 10 n := by
    simpa only [Nat.toString_eq_repr, Nat.toList_repr] using congrArg String.toList h
  simpa using congrArg (fun digits => Nat.ofDigitChars 10 digits 0) hdigits

@[simp] theorem nextVersion_enter (s : MemoryStore) (op : Operation) :
    (s.enter op).1.nextVersion = s.nextVersion := by
  unfold enter
  dsimp only
  split <;> rfl

@[simp] theorem nextVersion_stampNew (s : MemoryStore) (o : Object) :
    (s.stampNew o).1.nextVersion = s.nextVersion + 1 := by
  unfold stampNew stampUid stampVersion
  dsimp only
  split <;> rfl

/-- What a call can do that has been let through: it leaves all objects alone, or it stores the
object it is about with the next version, in place of one that had the version the call carries and
the same uid. -/
inductive Landed (s : MemoryStore) (kind : Kind) (call : Call) : MemoryStore × Outcome → Prop
  | still {t : MemoryStore} {outcome : Outcome} (ho : t.objects = s.objects)
      (hn : t.nextVersion = s.nextVersion)
      (hok : ∀ a, outcome = .ok a → call.token? = none ∧ ∀ o, a ≠ .stored o) :
      Landed s kind call (t, outcome)
  | wrote {t : MemoryStore} {p : Object} (ho : t.objects = s.objects.insert (kind, p.name) p)
      (htarget : call.target? = some p.name)
      (hn : t.nextVersion = s.nextVersion + 1)
      (hp : p.resourceVersion = some (toString s.nextVersion))
      (htoken : ∀ v, call.token? = some v →
        ∃ o, s.find? kind p.name = some o ∧ o.metadata.resourceVersion = some v)
      (huid : ∀ o, s.find? kind p.name = some o → p.metadata.uid = o.metadata.uid) :
      Landed s kind call (t, .ok (.stored p))

theorem landed_error {s : MemoryStore} {kind : Kind} {call : Call} {e : StoreError} :
    Landed s kind call (s, .error e) := by
  refine .still rfl rfl ?_
  intro a ha
  cases ha

/-- An object takes the place of the stored one. -/
theorem landed_restate {s : MemoryStore} {kind : Kind} {name : Name} {call : Call} {op : Operation}
    {stored o : Object} (hf : s.find? kind name = some stored) (hname : o.name = name)
    (htarget : call.target? = some name) (huid : o.metadata.uid = stored.metadata.uid)
    (htoken : ∀ v, call.token? = some v → stored.metadata.resourceVersion = some v) :
    Landed s kind call (s.restate kind name op o) := by
  subst hname
  refine .wrote rfl htarget rfl (resourceVersion_stamp o _) ?_ ?_
  · intro v hv
    exact ⟨stored, hf, htoken v hv⟩
  · intro old hold
    have hsame : stored = old := Option.some.inj (hf.symm.trans hold)
    rw [← hsame]
    exact huid

theorem landed_commit {s : MemoryStore} (hs : s.Filed) (kind : Kind) (call : Call) :
    Landed s kind call (s.commit kind call) := by
  cases call with
  | list scope =>
    refine .still rfl rfl ?_
    rintro a ⟨⟩
    exact ⟨rfl, fun o ho => by cases ho⟩
  | get name =>
    refine .still rfl rfl ?_
    rintro a ⟨⟩
    exact ⟨rfl, fun o ho => by cases ho⟩
  | create o =>
    unfold commit
    dsimp only
    split
    · exact landed_error
    · rename_i hf
      have hname : (s.stampNew { o with data := o.data.dropMember "status" }).2.name = o.name :=
        name_stampNew s _
      refine .wrote ?_ (congrArg some hname.symm) ?_ (resourceVersion_stampNew s _)
        (fun v hv => by cases hv) ?_
      · rw [hname]
        simp [succeed, put]
      · simp [succeed, put]
      · intro old hold
        rw [hname, hf] at hold
        cases hold
  | update o =>
    unfold commit
    dsimp only
    split
    · exact landed_error
    · rename_i stored hf
      split
      · exact landed_error
      · rename_i hcheck
        exact landed_restate hf rfl rfl rfl fun v hv => checkVersion_none hcheck hv
  | updateStatus o =>
    unfold commit
    dsimp only
    split
    · exact landed_error
    · rename_i stored hf
      split
      · exact landed_error
      · rename_i hcheck
        exact landed_restate hf (hs kind o.name stored hf) rfl rfl fun v hv =>
          checkVersion_none hcheck hv
  | patchMerge name patch =>
    unfold commit
    dsimp only
    split
    · exact landed_error
    · rename_i stored hf
      exact landed_restate hf (hs kind name stored hf) rfl rfl fun v hv => by cases hv

theorem Landed.congr {s t : MemoryStore} {kind : Kind} {call : Call} {z : MemoryStore × Outcome}
    (h : Landed t kind call z) (ho : t.objects = s.objects) (hn : t.nextVersion = s.nextVersion) :
    Landed s kind call z := by
  cases h with
  | still ho' hn' hok => exact .still (ho'.trans ho) (hn'.trans hn) hok
  | wrote ho' htarget hn' hp htoken huid =>
    refine .wrote (ho ▸ ho') htarget (hn ▸ hn') (hn ▸ hp) ?_ ?_
    · intro v hv
      obtain ⟨o, hf, hov⟩ := htoken v hv
      exact ⟨o, (find?_congr ho kind _).symm.trans hf, hov⟩
    · intro o hf
      exact huid o ((find?_congr ho kind _).trans hf)

theorem landed_perform {s : MemoryStore} (hs : s.Filed) (kind : Kind) (call : Call) :
    Landed s kind call (s.perform kind call) := by
  have ho := objects_enter s call.operation
  have hn := nextVersion_enter s call.operation
  unfold perform
  split
  · rename_i t e ht
    rw [ht] at ho hn
    exact landed_error.congr ho hn
  · rename_i t ht
    rw [ht] at ho hn
    exact (landed_commit (filed_congr ho hs) kind call).congr ho hn

/-- A call changes no other object than the one it is about. -/
theorem Landed.elsewhere {s : MemoryStore} {kind : Kind} {call : Call} {z : MemoryStore × Outcome}
    (h : Landed s kind call z) {name : Name} (hn : call.target? ≠ some name) (k : Kind) :
    z.1.find? k name = s.find? k name := by
  cases h with
  | still ho => exact find?_congr ho k name
  | wrote ho htarget =>
    rw [find?_of_insert ho, if_neg]
    rintro ⟨-, rfl⟩
    exact hn htarget

theorem Landed.onward {s : MemoryStore} {kind : Kind} {call : Call} {z : MemoryStore × Outcome}
    (h : Landed s kind call z) : s.nextVersion ≤ z.1.nextVersion := by
  cases h with
  | still _ hn => exact Nat.le_of_eq hn.symm
  | wrote _ _ hn => exact hn ▸ Nat.le_succ _

/-- A version that has been handed out. -/
def Issued (s : MemoryStore) (v : String) : Prop := ∃ n < s.nextVersion, v = toString n

theorem not_issued_next (s : MemoryStore) : ¬ s.Issued (toString s.nextVersion) := by
  rintro ⟨n, hn, he⟩
  exact Nat.ne_of_gt hn (eq_of_toString_eq he)

theorem issued_next {s t : MemoryStore} (h : s.nextVersion < t.nextVersion) :
    t.Issued (toString s.nextVersion) := ⟨s.nextVersion, h, rfl⟩

theorem Issued.mono {s t : MemoryStore} {v : String} (h : s.Issued v)
    (hle : s.nextVersion ≤ t.nextVersion) : t.Issued v := by
  obtain ⟨n, hn, rfl⟩ := h
  exact ⟨n, Nat.lt_of_lt_of_le hn hle, rfl⟩

/-- All objects are stored under their own names, with versions that have been handed out. -/
structure Sound (s : MemoryStore) : Prop where
  filed : s.Filed
  issued : ∀ kind name o, s.find? kind name = some o →
    ∃ v, o.metadata.resourceVersion = some v ∧ s.Issued v

theorem Sound.congr {s t : MemoryStore} (h : s.Sound) (ho : t.objects = s.objects)
    (hn : t.nextVersion = s.nextVersion) : t.Sound where
  filed := filed_congr ho h.filed
  issued kind name o hf := by
    rw [find?_congr ho] at hf
    obtain ⟨v, hv, hi⟩ := h.issued kind name o hf
    exact ⟨v, hv, hi.mono (Nat.le_of_eq hn.symm)⟩

/-- An object with the next version is stored. -/
theorem Sound.insert {s t : MemoryStore} (h : s.Sound) (kind : Kind) {p : Object}
    (ho : t.objects = s.objects.insert (kind, p.name) p)
    (hn : t.nextVersion = s.nextVersion + 1)
    (hp : p.resourceVersion = some (toString s.nextVersion)) : t.Sound where
  filed := filed_of_insert h.filed ho rfl
  issued k name o hf := by
    rw [find?_of_insert ho] at hf
    split at hf
    · cases hf
      exact ⟨_, (Option.filter_eq_some_iff.mp hp).1, issued_next (hn ▸ Nat.lt_succ_self _)⟩
    · obtain ⟨v, hv, hi⟩ := h.issued k name o hf
      exact ⟨v, hv, hi.mono (hn ▸ Nat.le_succ _)⟩

theorem Landed.sound {s : MemoryStore} {kind : Kind} {call : Call} {z : MemoryStore × Outcome}
    (h : Landed s kind call z) (hs : s.Sound) : z.1.Sound := by
  cases h with
  | still ho hn => exact hs.congr ho hn
  | wrote ho _ hn hp => exact hs.insert kind ho hn hp

theorem Reached.sound {s : MemoryStore} (h : Reached s) : s.Sound := by
  induction h with
  | empty => exact ⟨Reached.empty.filed, fun _ _ _ ho => by cases ho⟩
  | @insert s kind o _ ih =>
    refine ih.insert kind (p := (s.stampNew o).2) ?_ ?_ (resourceVersion_stampNew s o)
    · simp [MemoryStore.insert, put]
    · simp [MemoryStore.insert, put]
  | @remove s kind name hs ih =>
    refine ⟨(hs.remove kind name).filed, ?_⟩
    intro k n o ho
    simp only [MemoryStore.remove, find?, Table.find?_erase] at ho
    split at ho
    · cases ho
    · exact ih.issued k n o ho
  | failNext op f _ ih => exact ih.congr rfl rfl
  | hold op name _ ih => exact ih.congr rfl rfl
  | openGate gate _ ih => exact ih.congr rfl rfl
  | @enter s op _ ih => exact ih.congr (objects_enter s op) (nextVersion_enter s op)
  | commit kind call _ ih => exact (landed_commit ih.filed kind call).sound ih

@[simp] theorem faults_stampNew (s : MemoryStore) (o : Object) :
    (s.stampNew o).1.faults = s.faults := by
  unfold stampNew stampUid stampVersion
  dsimp only
  split <;> rfl

theorem faults_commit (s : MemoryStore) (kind : Kind) (call : Call) :
    (s.commit kind call).1.faults = s.faults := by
  cases call with
  | list scope => rfl
  | get name => rfl
  | create o =>
    unfold commit
    dsimp only
    split
    · rfl
    · exact faults_stampNew s _
  | update o =>
    unfold commit
    dsimp only
    split
    · rfl
    · split <;> rfl
  | updateStatus o =>
    unfold commit
    dsimp only
    split
    · rfl
    · split <;> rfl
  | patchMerge name patch =>
    unfold commit
    dsimp only
    split <;> rfl

/-- Without a queued fault a call takes effect. -/
theorem perform_faultless {s : MemoryStore} (h : s.faults = []) (kind : Kind) (call : Call) :
    s.perform kind call =
      ({ s with attempts := s.attempts.bump call.operation }).commit kind call := by
  simp only [perform, enter, h, takeFault]

theorem faults_perform {s : MemoryStore} (h : s.faults = []) (kind : Kind) (call : Call) :
    (s.perform kind call).1.faults = [] := by
  rw [perform_faultless h, faults_commit]
  exact h

end MemoryStore

end FedTrack
