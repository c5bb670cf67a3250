import FedTrack.Proofs.Store.Landing
import FedTrack.Proofs.Table.Order
import Mathlib.Data.List.Nodup

namespace FedTrack

open MemoryStore

/-- What has happened to a store. -/
inductive Dealing
  | answered (kind : Kind) (call : Call) (outcome : Outcome)
  /-- A direct insertion has got its version. -/
  | stamped (kind : Kind) (o : Object)
  /-- A direct insertion has stored its object. -/
  | placed (kind : Kind) (o : Object)

namespace Dealing

/-- The version that was handed out. -/
def version? : Dealing → Option String
  | .answered _ _ (.ok (.stored o)) | .stamped _ o => o.resourceVersion
  | _ => none

/-- What has been stored. -/
def state? : Dealing → Option (Kind × Object)
  | .answered kind _ (.ok (.stored o)) | .placed kind o => some (kind, o)
  | _ => none

/-- The version that a call carried with success. -/
def token? : Dealing → Option String
  | .answered _ call (.ok _) => call.token?
  | _ => none

end Dealing

/-- A store that any number of clients use at a time. -/
structure Traffic where
  store : MemoryStore
  /-- Calls that have arrived and not taken effect yet. -/
  calls : List (Kind × Call)
  /-- Stamped objects of direct insertions that are not stored yet. -/
  inserts : List (Kind × Object)
  /-- The latest first. -/
  log : List Dealing

/-- What can happen next, in any order. A call that has arrived may wait as long as it likes before
it takes effect, whether it is held or not, so that all orders in which held calls are released are
among them. -/
inductive TrafficEvent
  | arrive (kind : Kind) (call : Call)
  | land (kind : Kind) (call : Call)
  | stamp (kind : Kind) (o : Object)
  | place (kind : Kind) (o : Object)
  | remove (kind : Kind) (name : Name)
  | failNext (op : Operation) (f : Fault)
  | hold (op : Operation) (name : Name)
  | openGate (gate : Nat)

namespace Traffic

def new : Traffic := ⟨.empty, [], [], []⟩

def step (s : Traffic) : TrafficEvent → Traffic
  | .arrive kind call =>
    match s.store.enter call.operation with
    | (t, some e) => { s with store := t, log := .answered kind call (.error e) :: s.log }
    | (t, none) => { s with store := t, calls := (kind, call) :: s.calls }
  | .land kind call =>
    if (kind, call) ∈ s.calls then
      let (t, outcome) := s.store.commit kind call
      { s with
        store := t
        calls := s.calls.erase (kind, call)
        log := .answered kind call outcome :: s.log }
    else s
  | .stamp kind o =>
    let (t, o) := s.store.stampNew o
    { s with store := t, inserts := (kind, o) :: s.inserts, log := .stamped kind o :: s.log }
  | .place kind o =>
    if (kind, o) ∈ s.inserts then
      { s with
        store := s.store.put kind o.name o
        inserts := s.inserts.erase (kind, o)
        log := .placed kind o :: s.log }
    else s
  | .remove kind name => { s with store := (s.store.remove kind name).1 }
  | .failNext op f => { s with store := s.store.failNext op f }
  | .hold op name => { s with store := (s.store.hold op name).1 }
  | .openGate gate => { s with store := s.store.openGate gate }

def run (s : Traffic) (events : List TrafficEvent) : Traffic := events.foldl step s

/-- The versions handed out, the latest first. -/
def versions (s : Traffic) : List String := s.log.filterMap (·.version?)

/-- All that has been stored at some time, the latest first. -/
def states (s : Traffic) : List (Kind × Object) := s.log.filterMap (·.state?)

/-- The versions that calls carried with success, the latest first. -/
def tokens (s : Traffic) : List String := s.log.filterMap (·.token?)

end Traffic

namespace MemoryStore

/-- A listing has each object of its kind and scope once, in ascending order of their names. -/
theorem pairwise_ofKind {s : MemoryStore} (hs : s.Filed) (kind : Kind) :
    (s.ofKind kind).Pairwise fun o p => Key.lt o.name p.name = true := by
  have hsorted : s.objects.entries.Pairwise fun e e' => Key.lt e.1 e'.1 = true :=
    List.pairwise_map.mp (Table.pairwise_keys s.objects)
  unfold ofKind
  rw [List.pairwise_map]
  refine (hsorted.filter _).imp_of_mem ?_
  intro e e' he he' hlt
  obtain ⟨he, hk⟩ := List.mem_filter.mp he
  obtain ⟨he', hk'⟩ := List.mem_filter.mp he'
  have hname := hs e.1.1 e.1.2 e.2 ((Table.find?_eq_some _).mpr he)
  have hname' := hs e'.1.1 e'.1.2 e'.2 ((Table.find?_eq_some _).mpr he')
  simp only [decide_eq_true_eq] at hk hk'
  rw [hname, hname']
  simpa [Key.lt, hk, hk', Key.irrefl] using hlt

end MemoryStore

namespace Traffic

/-- What an event comes to: all objects stay as they are, a call takes effect, or a direct
intervention does. -/
inductive Stepped (s : Traffic) : TrafficEvent → Traffic → Prop
  | kept {event : TrafficEvent} {t : MemoryStore} {calls : List (Kind × Call)} {log : List Dealing}
      (ho : t.objects = s.store.objects) (hn : t.nextVersion = s.store.nextVersion)
      (hlog : log = s.log ∨ ∃ kind call e, log = .answered kind call (.error e) :: s.log) :
      Stepped s event ⟨t, calls, s.inserts, log⟩
  | landed {kind : Kind} {call : Call} {calls : List (Kind × Call)} {z : MemoryStore × Outcome}
      (hz : Landed s.store kind call z) :
      Stepped s (.land kind call) ⟨z.1, calls, s.inserts, .answered kind call z.2 :: s.log⟩
  | stamped (kind : Kind) (o : Object) : Stepped s (.stamp kind o) (s.step (.stamp kind o))
  | placed {kind : Kind} {o : Object} (hm : (kind, o) ∈ s.inserts) :
      Stepped s (.place kind o) ⟨s.store.put kind o.name o, s.calls, s.inserts.erase (kind, o),
        .placed kind o :: s.log⟩
  | removed (kind : Kind) (name : Name) :
      Stepped s (.remove kind name) { s with store := (s.store.remove kind name).1 }

theorem stepped {s : Traffic} (hf : s.store.Filed) (event : TrafficEvent) :
    Stepped s event (s.step event) := by
  cases event with
  | arrive kind call =>
    have ho := objects_enter s.store call.operation
    have hn := nextVersion_enter s.store call.operation
    unfold step
    dsimp only
    split
    · rename_i t e he
      rw [he] at ho hn
      exact .kept ho hn (Or.inr ⟨kind, call, e, rfl⟩)
    · rename_i t he
      rw [he] at ho hn
      exact .kept ho hn (Or.inl rfl)
  | land kind call =>
    unfold step
    dsimp only
    split
    · exact .landed (landed_commit hf kind call)
    · exact .kept rfl rfl (Or.inl rfl)
  | stamp kind o => exact .stamped kind o
  | place kind o =>
    unfold step
    dsimp only
    split
    · rename_i hm
      exact .placed hm
    · exact .kept rfl rfl (Or.inl rfl)
  | remove kind name => exact .removed kind name
  | failNext op f => exact .kept rfl rfl (Or.inl rfl)
  | hold op name => exact .kept rfl rfl (Or.inl rfl)
  | openGate gate => exact .kept rfl rfl (Or.inl rfl)

end Traffic

/-- Direct interventions at one place, which no call makes. -/
def TrafficEvent.Intervenes (kind : Kind) (name : Name) : TrafficEvent → Prop
  | .place k o => k = kind ∧ o.name = name
  | .remove k n => k = kind ∧ n = name
  | _ => False

/-- The versions are numbers in ascending order, each on one object that is or was stored or is to
be stored. A version that was carried with success is not stored any more. -/
structure Versioned (s : Traffic) : Prop where
  filed : s.store.Filed
  numbers : ∃ ns : List Nat, s.versions = ns.map toString ∧ ns.Pairwise (· > ·) ∧
    ∀ n ∈ ns, n < s.store.nextVersion
  apart : ((s.states ++ s.inserts).map (·.2.resourceVersion)).Nodup
  given : ∀ p ∈ s.states ++ s.inserts, ∃ v ∈ s.versions, p.2.resourceVersion = some v
  stored : ∀ kind name o, s.store.find? kind name = some o → (kind, o) ∈ s.states
  spent : ∀ v ∈ s.tokens, ∃ p ∈ s.states, p.2.resourceVersion = some v ∧
    ∀ o, s.store.find? p.1 p.2.name = some o → o.resourceVersion ≠ some v
  once : s.tokens.Nodup

namespace Versioned

variable {s : Traffic}

theorem new : Versioned .new where
  filed _ _ _ ho := by cases ho
  numbers := ⟨[], rfl, List.Pairwise.nil, nofun⟩
  apart := List.nodup_nil
  given _ hp := by cases hp
  stored _ _ _ ho := by cases ho
  spent _ hv := by cases hv
  once := List.nodup_nil

/-- The next version is a new one. -/
theorem fresh (h : Versioned s) : toString s.store.nextVersion ∉ s.versions := by
  obtain ⟨ns, hv, -, hlt⟩ := h.numbers
  rw [hv]
  intro hm
  obtain ⟨n, hn, he⟩ := List.mem_map.mp hm
  rw [eq_of_toString_eq he] at hn
  exact Nat.lt_irrefl _ (hlt _ hn)

theorem ne_next (h : Versioned s) {p : Kind × Object} (hp : p ∈ s.states ++ s.inserts) :
    p.2.resourceVersion ≠ some (toString s.store.nextVersion) := by
  obtain ⟨v, hv, he⟩ := h.given p hp
  rw [he]
  intro hn
  exact h.fresh (Option.some.inj hn ▸ hv)

theorem numbers_next (h : Versioned s) :
    ∃ ns : List Nat, toString s.store.nextVersion :: s.versions = ns.map toString ∧
      ns.Pairwise (· > ·) ∧ ∀ n ∈ ns, n < s.store.nextVersion + 1 := by
  obtain ⟨ns, hv, hdesc, hlt⟩ := h.numbers
  refine ⟨s.store.nextVersion :: ns, by rw [hv]; rfl, hdesc.cons hlt, ?_⟩
  intro n hn
  rcases List.mem_cons.mp hn with rfl | hn
  · exact Nat.lt_succ_self _
  · exact Nat.lt_succ_of_lt (hlt n hn)

/-- What is stored is what the versions tell apart. -/
theorem eq_of_version (h : Versioned s) {p q : Kind × Object} (hp : p ∈ s.states)
    (hq : q ∈ s.states) (he : p.2.resourceVersion = q.2.resourceVersion) : p = q :=
  List.inj_on_of_nodup_map h.apart (List.mem_append_left _ hp) (List.mem_append_left _ hq) he

/-- Objects may go, as long as nothing new is stored, handed out or carried with success. -/
theorem quiet (h : Versioned s) {t : MemoryStore} {calls : List (Kind × Call)} {log : List Dealing}
    (hn : t.nextVersion = s.store.nextVersion)
    (hf : ∀ kind name o, t.find? kind name = some o → s.store.find? kind name = some o)
    (hversions : log.filterMap (·.version?) = s.versions)
    (hstates : log.filterMap (·.state?) = s.states)
    (htokens : log.filterMap (·.token?) = s.tokens) : Versioned ⟨t, calls, s.inserts, log⟩ where
  filed kind name o ho := h.filed kind name o (hf kind name o ho)
  numbers := by
    obtain ⟨ns, hv, hdesc, hlt⟩ := h.numbers
    exact ⟨ns, hversions.trans hv, hdesc, fun n hm => hn ▸ hlt n hm⟩
  apart := by
    rw [Traffic.states, hstates]
    exact h.apart
  given := by
    rw [Traffic.states, Traffic.versions, hstates, hversions]
    exact h.given
  stored kind name o ho := by
    rw [Traffic.states, hstates]
    exact h.stored kind name o (hf kind name o ho)
  spent := by
    rw [Traffic.tokens, Traffic.states, htokens, hstates]
    intro v hv
    obtain ⟨p, hp, hversion, hgone⟩ := h.spent v hv
    exact ⟨p, hp, hversion, fun o ho => hgone o (hf _ _ o ho)⟩
  once := by
    rw [Traffic.tokens, htokens]
    exact h.once

/-- A call that leaves the objects alone hands nothing out and carries no version with success. -/
theorem still (h : Versioned s) {kind : Kind} {call : Call} {t : MemoryStore} {outcome : Outcome}
    {calls : List (Kind × Call)} (ho : t.objects = s.store.objects)
    (hn : t.nextVersion = s.store.nextVersion)
    (hok : ∀ a, outcome = .ok a → call.token? = none ∧ ∀ o, a ≠ .stored o) :
    Versioned ⟨t, calls, s.inserts, .answered kind call outcome :: s.log⟩ := by
  have hf : ∀ kind name o, t.find? kind name = some o → s.store.find? kind name = some o := by
    intro kind name o hfind
    rw [← find?_congr ho]
    exact hfind
  cases outcome with
  | error e => exact h.quiet hn hf rfl rfl rfl
  | ok a =>
    obtain ⟨htoken, hstored⟩ := hok a rfl
    have htokens : (Dealing.answered kind call (.ok a) :: s.log).filterMap (·.token?) = s.tokens :=
      List.filterMap_cons_none htoken
    cases a with
    | stored o => exact absurd rfl (hstored o)
    | objects list => exact h.quiet hn hf rfl rfl htokens
    | found object => exact h.quiet hn hf rfl rfl htokens

theorem version_stored (h : Versioned s) {kind : Kind} {name : Name} {o : Object}
    (ho : s.store.find? kind name = some o) : o.resourceVersion = o.metadata.resourceVersion := by
  obtain ⟨v, -, hv⟩ := h.given _ (List.mem_append_left _ (h.stored kind name o ho))
  rw [hv, (Option.filter_eq_some_iff.mp hv).1]

/-- The version of what is stored has not been carried with success yet. -/
theorem unspent (h : Versioned s) {kind : Kind} {name : Name} {o : Object} {v : String}
    (ho : s.store.find? kind name = some o) (hv : o.resourceVersion = some v) : v ∉ s.tokens := by
  intro hm
  obtain ⟨q, hq, hqv, hgone⟩ := h.spent v hm
  have he := h.eq_of_version hq (h.stored kind name o ho) (hqv.trans hv.symm)
  subst he
  rw [← h.filed kind name o ho] at ho
  exact hgone o ho hqv

/-- Where an object of the next version is put, no version that was stored before stays. -/
theorem spent_of_insert (h : Versioned s) {kind : Kind} {t : MemoryStore} {p : Object}
    (ho : t.objects = s.store.objects.insert (kind, p.name) p)
    (hp : p.resourceVersion = some (toString s.store.nextVersion)) {v : String}
    (hv : v ∈ s.tokens ∨
      ∃ o, s.store.find? kind p.name = some o ∧ o.metadata.resourceVersion = some v) :
    ∃ q ∈ s.states, q.2.resourceVersion = some v ∧
      ∀ o, t.find? q.1 q.2.name = some o → o.resourceVersion ≠ some v := by
  have hnext {q : Kind × Object} (hq : q ∈ s.states) (hqv : q.2.resourceVersion = some v) :
      p.resourceVersion ≠ some v := by
    rw [hp, ← hqv]
    exact (h.ne_next (List.mem_append_left _ hq)).symm
  rcases hv with hv | ⟨o, hold, hversion⟩
  · obtain ⟨q, hq, hqv, hgone⟩ := h.spent v hv
    refine ⟨q, hq, hqv, ?_⟩
    intro o hfind
    rw [find?_of_insert ho] at hfind
    split at hfind
    · cases hfind
      exact hnext hq hqv
    · exact hgone o hfind
  · have hq := h.stored kind p.name o hold
    have hov : o.resourceVersion = some v := (h.version_stored hold).trans hversion
    refine ⟨(kind, o), hq, hov, ?_⟩
    intro o' hfind
    rw [find?_of_insert ho, h.filed kind p.name o hold, if_pos ⟨rfl, rfl⟩] at hfind
    cases hfind
    exact hnext hq hov

/-- A call that stores an object hands out its version, and takes the one that it carried from
what is stored. -/
theorem wrote (h : Versioned s) {kind : Kind} {call : Call} {t : MemoryStore} {p : Object}
    {calls : List (Kind × Call)} (ho : t.objects = s.store.objects.insert (kind, p.name) p)
    (hn : t.nextVersion = s.store.nextVersion + 1)
    (hp : p.resourceVersion = some (toString s.store.nextVersion))
    (htoken : ∀ v, call.token? = some v →
      ∃ o, s.store.find? kind p.name = some o ∧ o.metadata.resourceVersion = some v) :
    Versioned ⟨t, calls, s.inserts, .answered kind call (.ok (.stored p)) :: s.log⟩ := by
  have hfind := find?_of_insert ho
  have hversions : (Dealing.answered kind call (.ok (.stored p)) :: s.log).filterMap (·.version?) =
      toString s.store.nextVersion :: s.versions := List.filterMap_cons_some hp
  have hstates : (Dealing.answered kind call (.ok (.stored p)) :: s.log).filterMap (·.state?) =
      (kind, p) :: s.states := List.filterMap_cons_some rfl
  have htokens : ∀ v ∈ (Dealing.answered kind call (.ok (.stored p)) :: s.log).filterMap (·.token?),
      call.token? = some v ∨ v ∈ s.tokens := by
    intro v hv
    obtain ⟨d, hd, hdv⟩ := List.mem_filterMap.mp hv
    rcases List.mem_cons.mp hd with rfl | hd
    · exact Or.inl hdv
    · exact Or.inr (List.mem_filterMap.mpr ⟨d, hd, hdv⟩)
  refine ⟨?_, ?_, ?_, ?_, ?_, ?_, ?_⟩
  · exact filed_of_insert h.filed ho rfl
  · obtain ⟨ns, hns, hdesc, hlt⟩ := h.numbers_next
    exact ⟨ns, hversions.trans hns, hdesc, fun n hm => hn ▸ hlt n hm⟩
  · rw [Traffic.states, hstates, List.cons_append, List.map_cons, List.nodup_cons]
    refine ⟨?_, h.apart⟩
    intro hm
    obtain ⟨q, hq, he⟩ := List.mem_map.mp hm
    exact h.ne_next hq (he.trans hp)
  · rw [Traffic.states, Traffic.versions, hstates, hversions]
    intro q hq
    rcases List.mem_cons.mp hq with rfl | hq
    · exact ⟨_, List.mem_cons_self, hp⟩
    · obtain ⟨v, hv, he⟩ := h.given q hq
      exact ⟨v, List.mem_cons_of_mem _ hv, he⟩
  · rw [Traffic.states, hstates]
    intro k name o hk
    rw [hfind] at hk
    split at hk
    · rename_i he
      cases hk
      rw [← he.1]
      exact List.mem_cons_self
    · exact List.mem_cons_of_mem _ (h.stored k name o hk)
  · intro v hv
    have hbefore : v ∈ s.tokens ∨
        ∃ o, s.store.find? kind p.name = some o ∧ o.metadata.resourceVersion = some v :=
      (htokens v hv).symm.imp_right (htoken v)
    obtain ⟨q, hq, hqv, hgone⟩ := h.spent_of_insert ho hp hbefore
    rw [Traffic.states, hstates]
    exact ⟨q, List.mem_cons_of_mem _ hq, hqv, hgone⟩
  · cases hc : call.token? with
    | none =>
      have htokens : (Dealing.answered kind call (.ok (.stored p)) :: s.log).filterMap (·.token?) =
          s.tokens := List.filterMap_cons_none hc
      rw [Traffic.tokens, htokens]
      exact h.once
    | some v =>
      have htokens : (Dealing.answered kind call (.ok (.stored p)) :: s.log).filterMap (·.token?) =
          v :: s.tokens := List.filterMap_cons_some hc
      rw [Traffic.tokens, htokens, List.nodup_cons]
      obtain ⟨o, hold, hversion⟩ := htoken v hc
      exact ⟨h.unspent hold ((h.version_stored hold).trans hversion), h.once⟩

/-- The stamp of a direct insertion is a version like any other. -/
theorem stamp (h : Versioned s) (kind : Kind) (o : Object) :
    Versioned (s.step (.stamp kind o)) := by
  have hp := resourceVersion_stampNew s.store o
  have hf := find?_congr (objects_stampNew s.store o)
  have hversions : (s.step (.stamp kind o)).versions =
      toString s.store.nextVersion :: s.versions := List.filterMap_cons_some hp
  have hinserts : (s.states ++ (kind, (s.store.stampNew o).2) :: s.inserts).Perm
      ((kind, (s.store.stampNew o).2) :: (s.states ++ s.inserts)) := List.perm_middle
  refine ⟨?_, ?_, ?_, ?_, ?_, ?_, h.once⟩
  · exact filed_congr (objects_stampNew s.store o) h.filed
  · obtain ⟨ns, hns, hdesc, hlt⟩ := h.numbers_next
    refine ⟨ns, hversions.trans hns, hdesc, ?_⟩
    intro n hm
    exact (nextVersion_stampNew s.store o).symm ▸ hlt n hm
  · refine ((hinserts.map _).nodup_iff).mpr ?_
    rw [List.map_cons, List.nodup_cons]
    refine ⟨?_, h.apart⟩
    intro hm
    obtain ⟨q, hq, he⟩ := List.mem_map.mp hm
    exact h.ne_next hq (he.trans hp)
  · intro q hq
    rw [hversions]
    rcases List.mem_cons.mp (hinserts.mem_iff.mp hq) with rfl | hq
    · exact ⟨_, List.mem_cons_self, hp⟩
    · obtain ⟨v, hv, he⟩ := h.given q hq
      exact ⟨v, List.mem_cons_of_mem _ hv, he⟩
  · intro k name p hk
    exact h.stored k name p ((hf k name).symm.trans hk)
  · intro v hv
    obtain ⟨q, hq, hqv, hgone⟩ := h.spent v hv
    exact ⟨q, hq, hqv, fun p hk => hgone p ((hf _ _).symm.trans hk)⟩

/-- What a direct insertion stores has a version that nothing has had that is or was stored. -/
theorem place (h : Versioned s) {kind : Kind} {o : Object} (hm : (kind, o) ∈ s.inserts) :
    Versioned ⟨s.store.put kind o.name o, s.calls, s.inserts.erase (kind, o),
      .placed kind o :: s.log⟩ := by
  have hfind := find?_of_insert (s := s.store) (t := s.store.put kind o.name o) rfl
  have hperm : ((kind, o) :: s.states ++ s.inserts.erase (kind, o)).Perm
      (s.states ++ s.inserts) := by
    refine List.Perm.trans List.perm_middle.symm ?_
    exact (List.perm_cons_erase hm).symm.append_left s.states
  have hnew : ∀ q ∈ s.states, q.2.resourceVersion ≠ o.resourceVersion := by
    intro q hq he
    have hnodup := ((hperm.map (·.2.resourceVersion)).nodup_iff).mpr h.apart
    rw [List.cons_append, List.map_cons, List.nodup_cons] at hnodup
    exact hnodup.1 (List.mem_map.mpr ⟨q, List.mem_append_left _ hq, he⟩)
  refine ⟨?_, h.numbers, ?_, ?_, ?_, ?_, h.once⟩
  · exact filed_of_insert h.filed rfl rfl
  · exact ((hperm.map (·.2.resourceVersion)).nodup_iff).mpr h.apart
  · intro q hq
    exact h.given q (hperm.mem_iff.mp hq)
  · intro k name p hk
    rw [hfind] at hk
    split at hk
    · rename_i he
      cases hk
      rw [← he.1]
      exact List.mem_cons_self
    · exact List.mem_cons_of_mem _ (h.stored k name p hk)
  · intro v hv
    obtain ⟨q, hq, hqv, hgone⟩ := h.spent v hv
    refine ⟨q, List.mem_cons_of_mem _ hq, hqv, ?_⟩
    intro p hk
    rw [hfind] at hk
    split at hk
    · cases hk
      rw [← hqv]
      exact (hnew q hq).symm
    · exact hgone p hk

theorem step (h : Versioned s) (event : TrafficEvent) : Versioned (s.step event) := by
  have hs := Traffic.stepped h.filed event
  generalize s.step event = s' at hs
  cases hs with
  | kept ho hn hlog =>
    have hf := find?_congr ho
    rcases hlog with rfl | ⟨kind, call, e, rfl⟩
    · exact h.quiet hn (fun k n o ho => (hf k n).symm.trans ho) rfl rfl rfl
    · exact h.quiet hn (fun k n o ho => (hf k n).symm.trans ho) rfl rfl rfl
  | landed hz =>
    cases hz with
    | still ho hn hok => exact h.still ho hn hok
    | wrote ho _ hn hp htoken => exact h.wrote ho hn hp htoken
  | stamped kind o => exact h.stamp kind o
  | placed hm => exact h.place hm
  | removed kind name =>
    refine h.quiet rfl ?_ rfl rfl rfl
    intro k n o ho
    simp only [MemoryStore.remove, find?, Table.find?_erase] at ho
    split at ho
    · cases ho
    · exact ho

theorem run (h : Versioned s) (events : List TrafficEvent) : Versioned (s.run events) := by
  induction events generalizing s with
  | nil => exact h
  | cons e rest ih => exact ih (h.step e)

end Versioned

/-- An object keeps its uid as long as nobody intervenes at its place. -/
theorem Traffic.uid_step {s : Traffic} (hf : s.store.Filed) {kind : Kind} {name : Name} {o : Object}
    (ho : s.store.find? kind name = some o) {event : TrafficEvent}
    (he : ¬ event.Intervenes kind name) :
    ∃ p, (s.step event).store.find? kind name = some p ∧ p.metadata.uid = o.metadata.uid := by
  have hs := stepped hf event
  generalize s.step event = s' at hs
  cases hs with
  | kept ht => exact ⟨o, (find?_congr ht kind name).trans ho, rfl⟩
  | @landed k call calls z hz =>
    cases hz with
    | still ht => exact ⟨o, (find?_congr ht kind name).trans ho, rfl⟩
    | @wrote t p ht _ _ _ _ huid =>
      have hfind := find?_of_insert ht kind name
      by_cases hk : k = kind ∧ p.name = name
      · obtain ⟨rfl, rfl⟩ := hk
        rw [if_pos ⟨rfl, rfl⟩] at hfind
        exact ⟨p, hfind, huid o ho⟩
      · rw [if_neg hk] at hfind
        exact ⟨o, hfind.trans ho, rfl⟩
  | stamped k p => exact ⟨o, (find?_congr (objects_stampNew s.store p) kind name).trans ho, rfl⟩
  | @placed k p hm =>
    refine ⟨o, ?_, rfl⟩
    have hk : ¬ (k = kind ∧ p.name = name) := he
    rw [find?_of_insert (s := s.store) (t := s.store.put k p.name p) rfl, if_neg hk]
    exact ho
  | removed k n =>
    refine ⟨o, ?_, rfl⟩
    simp only [MemoryStore.remove, find?, Table.find?_erase]
    rw [if_neg]
    · exact ho
    · intro hk
      cases hk
      exact he ⟨rfl, rfl⟩

theorem Traffic.uid_run {s : Traffic} (h : Versioned s) {kind : Kind} {name : Name} {o : Object}
    (ho : s.store.find? kind name = some o) {events : List TrafficEvent}
    (he : ∀ e ∈ events, ¬ e.Intervenes kind name) :
    ∃ p, (s.run events).store.find? kind name = some p ∧ p.metadata.uid = o.metadata.uid := by
  induction events generalizing s o with
  | nil => exact ⟨o, ho, rfl⟩
  | cons e rest ih =>
    obtain ⟨p, hp, hu⟩ := uid_step h.filed ho (he e List.mem_cons_self)
    obtain ⟨q, hq, hv⟩ := ih (h.step e) hp fun e hm => he e (List.mem_cons_of_mem _ hm)
    exact ⟨q, hq, hv.trans hu⟩

namespace Traffic

/-- A call that starts is one event, or two if it takes effect at once. -/
theorem launch_run (s : Traffic) (kind : Kind) (call : Call) :
    (∃ outcome, ∃ later : List TrafficEvent, (later = [] ∨ later = [.land kind call]) ∧
      s.store.launch kind call = ((s.run (.arrive kind call :: later)).store, .inl outcome) ∧
      (s.run (.arrive kind call :: later)).log = .answered kind call outcome :: s.log) ∨
    ∃ gate, s.store.launch kind call =
        ((s.step (.arrive kind call)).store, .inr ⟨kind, call, gate⟩) ∧
      (kind, call) ∈ (s.step (.arrive kind call)).calls := by
  cases he : s.store.enter call.operation with
  | mk t e? =>
    cases e? with
    | some e =>
      refine Or.inl ⟨.error e, [], Or.inl rfl, ?_, ?_⟩
      · simp only [launch, run, List.foldl_cons, List.foldl_nil, step, he]
      · simp only [run, List.foldl_cons, List.foldl_nil, step, he]
    | none =>
      have hnow : ∀ u outcome, t.commit kind call = (u, outcome) →
          s.run [.arrive kind call, .land kind call] =
            { s with store := u, log := .answered kind call outcome :: s.log } := by
        intro u outcome hc
        simp [run, step, he, hc]
      have hstep : s.step (.arrive kind call) =
          { s with store := t, calls := (kind, call) :: s.calls } := by
        simp only [step, he]
      unfold launch
      simp only [he, hstep]
      cases hc : t.commit kind call with
      | mk u outcome =>
        have hdone := hnow u outcome hc
        split
        · split
          · exact Or.inl ⟨outcome, _, Or.inr rfl, by rw [hdone], by rw [hdone]⟩
          · exact Or.inr ⟨_, rfl, List.mem_cons_self⟩
        · exact Or.inl ⟨outcome, _, Or.inr rfl, by rw [hdone], by rw [hdone]⟩

/-- A direct insertion is two events. -/
theorem insert_run (s : Traffic) (kind : Kind) (o : Object) :
    (s.run [.stamp kind o, .place kind (s.store.stampNew o).2]).store =
      (s.store.insert kind o).1 := by
  simp [run, step, MemoryStore.insert]

/-- Whatever clients do to a store, and in whatever order, it keeps its objects under their own
names, its versions ascend and tell apart all that is stored at any time, a version lets one call
through at most, and calls leave the uid of an object as it is. -/
theorem optimistic_concurrency (events : List TrafficEvent) :
    let s := new.run events
    (∀ kind name o, s.store.find? kind name = some o → o.name = name) ∧
    (∀ kind scope, ∃ list, (s.store.commit kind (.list scope)).2 = .ok (.objects list) ∧
      (list.Pairwise fun o p => Key.lt o.name p.name = true) ∧
      ∀ o, o ∈ list ↔ s.store.find? kind o.name = some o ∧ inScope scope o.name = true) ∧
    (∃ ns : List Nat, s.versions = ns.map toString ∧ ns.Pairwise (· > ·)) ∧
    (s.states.map (·.2.resourceVersion)).Nodup ∧
    (∀ p ∈ s.states, ∃ v ∈ s.versions, p.2.resourceVersion = some v) ∧
    (∀ kind name o, s.store.find? kind name = some o → (kind, o) ∈ s.states) ∧
    s.tokens.Nodup ∧
    ∀ kind name o later, s.store.find? kind name = some o →
      (∀ e ∈ later, ¬ TrafficEvent.Intervenes kind name e) →
      ∃ p, (s.run later).store.find? kind name = some p ∧ p.metadata.uid = o.metadata.uid := by
  intro s
  have h : Versioned s := Versioned.new.run events
  obtain ⟨ns, hns, hdesc, -⟩ := h.numbers
  refine ⟨h.filed, ?_, ⟨ns, hns, hdesc⟩, ?_, ?_, h.stored, h.once, ?_⟩
  · intro kind scope
    refine ⟨_, rfl, (pairwise_ofKind h.filed kind).filter _, ?_⟩
    intro o
    rw [List.mem_filter, h.filed.mem_ofKind]
  · have hapart := h.apart
    rw [List.map_append] at hapart
    exact (List.nodup_append.mp hapart).1
  · intro p hp
    exact h.given p (List.mem_append_left _ hp)
  · intro kind name o later ho hl
    exact uid_run h ho hl

/-- Of two clients that have read the same version, the one whose call lands first wins. -/
example :
    let kind : Kind := ⟨"apps", "v1", "Deployment"⟩
    let web (data : Json) (version : Option String) : Object :=
      ⟨none, { Metadata.empty with name := some "web", resourceVersion := version }, data⟩
    let opening := Call.create (web .null none)
    let first := Call.update (web (.bool true) (some "1"))
    let second := Call.update (web (.bool false) (some "1"))
    let s := new.run [.arrive kind opening, .land kind opening, .arrive kind first,
      .arrive kind second, .land kind second, .land kind first]
    s.tokens = ["1"] ∧ s.versions = ["2", "1"] ∧
      (s.store.find? kind ⟨"", "web"⟩).map (·.data) = some (.bool false) := by
  decide +kernel

end Traffic

end FedTrack
