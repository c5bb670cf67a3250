import FedTrack.Proofs.Version.Durability

namespace FedTrack

/-- Of the records that several updates made: which one was put in the cache last, and which one
had its status stored last, each with the number of its update. -/
structure History where
  cached : Option (Nat × Object)
  stored : Option (Nat × Object)

/-- Updates that overlap at one site. -/
structure Session where
  site : Site
  updates : List UpdateStage
  history : History

/-- Another update starts, one of them takes a step, or a fault is queued. -/
inductive Event
  | start (r : UpdateRequest)
  | go (i : Nat) (now : Time)
  | fault (op : Operation) (f : Fault)

namespace History

/-- An update leaves its first part with a record to write, or has stored its status. -/
def note (h : History) (i : Nat) : UpdateStage → UpdateStage → History
  | .preparing _, .writing _ w => { h with cached := some (i, w.record) }
  | .writing _ w, .adopting _ _ => { h with stored := some (i, w.record) }
  | _, _ => h

/-- The record cached last and the record stored last say the same, if any were. -/
def Settled (h : History) : Prop :=
  ∀ i c j o, h.cached = some (i, c) → h.stored = some (j, o) → RecordType.sameStatus c o = true

instance (h : History) : Decidable h.Settled :=
  decidable_of_iff
    ((h.cached.all fun c => h.stored.all fun o => RecordType.sameStatus c.2 o.2) = true) (by
      simp only [Settled, Option.all_eq_true, Prod.forall]
      exact ⟨fun h i c j o hc => h i c hc j o, fun h i c hc j o => h i c j o hc⟩)

end History

namespace Session

def new (x : Site) : Session := ⟨x, [], none, none⟩

def step (s : Session) : Event → Session
  | .start r => { s with updates := s.updates ++ [.preparing r] }
  | .fault op f => { s with site := s.site.failNext op f }
  | .go i now =>
    match s.updates[i]? with
    | none => s
    | some u =>
      let (x, u') := UpdateStage.step now s.site u
      ⟨x, s.updates.set i u', s.history.note i u u'⟩

def run (s : Session) (events : List Event) : Session := events.foldl step s

end Session

/-- What the stage of the `i`th update tells of the history. `found` is whether there was a record
that could be read before any of the updates. -/
def Fits (n own : Name) (found : Prop) (h : History) (i : Nat) : UpdateStage → Prop
  | .preparing r =>
    r.resource.name = n ∧ (∀ c, h.cached ≠ some (i, c)) ∧ ∀ o, h.stored ≠ some (i, o)
  | .writing _ w =>
    w.record.name = own ∧ h.cached ≠ none ∧ (∀ c, h.cached = some (i, c) → c = w.record) ∧
      ∀ o, h.stored ≠ some (i, o)
  | .adopting _ _ => h.cached ≠ none ∧ h.stored ≠ none
  | .finished (.ok _) => (h.cached ≠ none ∨ found) ∧ ∀ c, h.cached = some (i, c) → h.stored ≠ none
  | .finished (.error _) => True

namespace Fits

variable {n own : Name} {found : Prop} {h : History} {i j : Nat} {u : UpdateStage}

theorem cache (hf : Fits n own found h j u) (hne : i ≠ j) (record : Object) :
    Fits n own found { h with cached := some (i, record) } j u := by
  have hfresh (c : Object) : some (i, record) ≠ some (j, c) := fun he => hne (by cases he; rfl)
  have hsome : some (i, record) ≠ none := Option.some_ne_none _
  cases u with
  | preparing r => exact ⟨hf.1, hfresh, hf.2.2⟩
  | writing name w => exact ⟨hf.1, hsome, fun c hc => absurd hc (hfresh c), hf.2.2.2⟩
  | adopting name version => exact ⟨hsome, hf.2⟩
  | finished result =>
    cases result with
    | error e => exact hf
    | ok _ => exact ⟨Or.inl hsome, fun c hc => absurd hc (hfresh c)⟩

theorem save (hf : Fits n own found h j u) (hne : i ≠ j) (record : Object) :
    Fits n own found { h with stored := some (i, record) } j u := by
  have hfresh (o : Object) : some (i, record) ≠ some (j, o) := fun he => hne (by cases he; rfl)
  have hsome : some (i, record) ≠ none := Option.some_ne_none _
  cases u with
  | preparing r => exact ⟨hf.1, hf.2.1, hfresh⟩
  | writing name w => exact ⟨hf.1, hf.2.1, hf.2.2.1, hfresh⟩
  | adopting name version => exact ⟨hf.1, hsome⟩
  | finished result =>
    cases result with
    | error e => exact hf
    | ok _ => exact ⟨hf.1, fun _ _ => hsome⟩

end Fits

/-- The history is one of these updates. -/
structure Chronicle (n own : Name) (found : Prop) (h : History) (updates : List UpdateStage) :
    Prop where
  readable : ∀ i c, h.cached = some (i, c) → ∃ s, RecordType.status? c = some s
  first : h.stored ≠ none → h.cached ≠ none
  same : ∀ i c o, h.cached = some (i, c) → h.stored = some (i, o) → c = o
  cacher : ∀ i c, h.cached = some (i, c) → i < updates.length
  storer : ∀ i o, h.stored = some (i, o) → i < updates.length
  fits : ∀ i u, updates[i]? = some u → Fits n own found h i u

namespace Chronicle

variable {n own : Name} {found : Prop} {h : History} {updates : List UpdateStage}

theorem nil : Chronicle n own found ⟨none, none⟩ [] := by
  refine ⟨?_, ?_, ?_, ?_, ?_, ?_⟩
  · intro i c hc
    cases hc
  · intro ho
    exact absurd rfl ho
  · intro i c o hc
    cases hc
  · intro i c hc
    cases hc
  · intro i o ho
    cases ho
  · intro i u hu
    cases hu

theorem start (hc : Chronicle n own found h updates) {r : UpdateRequest}
    (hr : r.resource.name = n) :
    Chronicle n own found h (updates ++ [.preparing r]) := by
  have hlen : updates.length < (updates ++ [UpdateStage.preparing r]).length := by simp
  refine ⟨hc.readable, hc.first, hc.same, ?_, ?_, ?_⟩
  · intro i c h
    exact Nat.lt_trans (hc.cacher i c h) hlen
  · intro i o h
    exact Nat.lt_trans (hc.storer i o h) hlen
  · intro i u hu
    by_cases hi : i < updates.length
    · rw [List.getElem?_append_left hi] at hu
      exact hc.fits i u hu
    · have hlast : i = updates.length := by
        have := (List.getElem?_eq_some_iff.mp hu).1
        simp only [List.length_append, List.length_singleton] at this
        omega
      subst hlast
      rw [List.getElem?_concat_length] at hu
      cases hu
      refine ⟨hr, ?_, ?_⟩
      · intro c hcached
        exact hi (hc.cacher _ c hcached)
      · intro o hstored
        exact hi (hc.storer _ o hstored)

/-- One update changes its stage. -/
theorem set {h' : History} {i : Nat} {u : UpdateStage} (hc : Chronicle n own found h updates)
    (hi : updates[i]? = some u) (u' : UpdateStage)
    (hreadable : ∀ j c, h'.cached = some (j, c) → ∃ s, RecordType.status? c = some s)
    (hfirst : h'.stored ≠ none → h'.cached ≠ none)
    (hsame : ∀ j c o, h'.cached = some (j, c) → h'.stored = some (j, o) → c = o)
    (hcacher : ∀ j c, h'.cached = some (j, c) → j = i ∨ h.cached = some (j, c))
    (hstorer : ∀ j o, h'.stored = some (j, o) → j = i ∨ h.stored = some (j, o))
    (hu : Fits n own found h' i u')
    (hothers : ∀ j v, i ≠ j → Fits n own found h j v → Fits n own found h' j v) :
    Chronicle n own found h' (updates.set i u') := by
  have hlt : i < updates.length := (List.getElem?_eq_some_iff.mp hi).1
  refine ⟨hreadable, hfirst, hsame, ?_, ?_, ?_⟩
  · intro j c hj
    rw [List.length_set]
    rcases hcacher j c hj with rfl | hj
    · exact hlt
    · exact hc.cacher j c hj
  · intro j o hj
    rw [List.length_set]
    rcases hstorer j o hj with rfl | hj
    · exact hlt
    · exact hc.storer j o hj
  · intro j v hv
    rw [List.getElem?_set] at hv
    split at hv
    · rename_i he
      subst he
      cases hv
      exact hu
    · rename_i hne
      exact hothers j v hne (hc.fits j v hv)

theorem quiet {i : Nat} {u u' : UpdateStage} (hc : Chronicle n own found h updates)
    (hi : updates[i]? = some u) (hu : Fits n own found h i u') :
    Chronicle n own found h (updates.set i u') :=
  hc.set hi u' hc.readable hc.first hc.same (fun _ _ => Or.inr) (fun _ _ => Or.inr) hu
    fun _ _ _ hf => hf

theorem cache {i : Nat} {r : UpdateRequest} {name : Name} {w : Write}
    (hc : Chronicle n own found h updates) (hi : updates[i]? = some (.preparing r))
    (hname : w.record.name = own) (hs : ∃ s, RecordType.status? w.record = some s) :
    Chronicle n own found { h with cached := some (i, w.record) }
      (updates.set i (.writing name w)) := by
  obtain ⟨-, -, hstored⟩ := hc.fits i _ hi
  have hsome : some (i, w.record) ≠ none := Option.some_ne_none _
  refine hc.set hi _ ?_ (fun _ => hsome) ?_ ?_ (fun _ _ => Or.inr) ?_ ?_
  · intro j c hj
    cases hj
    exact hs
  · intro j c o hj ho
    cases hj
    exact absurd ho (hstored o)
  · intro j c hj
    cases hj
    exact Or.inl rfl
  · refine ⟨hname, hsome, ?_, hstored⟩
    intro c hcached
    cases hcached
    rfl
  · intro j v hne hf
    exact hf.cache hne w.record

theorem save {i : Nat} {name name' : Name} {w : Write} {version : Option String}
    (hc : Chronicle n own found h updates) (hi : updates[i]? = some (.writing name w)) :
    Chronicle n own found { h with stored := some (i, w.record) }
      (updates.set i (.adopting name' version)) := by
  obtain ⟨-, hcached, hown, -⟩ := hc.fits i _ hi
  refine hc.set hi _ hc.readable (fun _ => hcached) ?_ (fun _ _ => Or.inr) ?_ ?_ ?_
  · intro j c o hj ho
    cases ho
    exact hown c hj
  · intro j o hj
    cases hj
    exact Or.inl rfl
  · exact ⟨hcached, Option.some_ne_none _⟩
  · intro j v hne hf
    exact hf.save hne w.record

end Chronicle

/-- If one update was the last in both respects, there is one record only. -/
theorem Chronicle.settled {n own : Name} {found : Prop} {h : History} {updates : List UpdateStage}
    (hc : Chronicle n own found h updates) (he : h.cached.map Prod.fst = h.stored.map Prod.fst) :
    h.Settled := by
  intro i c j o hcached hstored
  rw [hcached, hstored, Option.map_some, Option.map_some] at he
  have hij : i = j := Option.some.inj he
  subst hij
  obtain ⟨s, hs⟩ := hc.readable i c hcached
  have hco := hc.same i c o hcached hstored
  subst hco
  exact RecordType.sameStatus_of_eq hs hs

end FedTrack
