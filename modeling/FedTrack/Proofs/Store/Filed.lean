import FedTrack.Proofs.Store.Effect
import FedTrack.Proofs.Table.Lookup

namespace FedTrack.MemoryStore

/-- Every object is stored under its own name. -/
def Filed (s : MemoryStore) : Prop := ∀ kind name o, s.find? kind name = some o → o.name = name

/-- Stores that come about by calls, interventions, faults and holds. -/
inductive Reached : MemoryStore → Prop
  | empty : Reached empty
  | insert {s : MemoryStore} (kind : Kind) (o : Object) : Reached s → Reached (s.insert kind o).1
  | remove {s : MemoryStore} (kind : Kind) (name : Name) :
      Reached s → Reached (s.remove kind name).1
  | failNext {s : MemoryStore} (op : Operation) (f : Fault) : Reached s → Reached (s.failNext op f)
  | hold {s : MemoryStore} (op : Operation) (name : Name) : Reached s → Reached (s.hold op name).1
  | openGate {s : MemoryStore} (gate : Nat) : Reached s → Reached (s.openGate gate)
  | enter {s : MemoryStore} (op : Operation) : Reached s → Reached (s.enter op).1
  | commit {s : MemoryStore} (kind : Kind) (call : Call) :
      Reached s → Reached (s.commit kind call).1

theorem Reached.perform {s : MemoryStore} (h : Reached s) (kind : Kind) (call : Call) :
    Reached (s.perform kind call).1 := by
  have he := h.enter call.operation
  unfold MemoryStore.perform
  split
  · rename_i t e ht
    rw [ht] at he
    exact he
  · rename_i t ht
    rw [ht] at he
    exact he.commit kind call

theorem filed_congr {s t : MemoryStore} (h : t.objects = s.objects) (hs : s.Filed) : t.Filed := by
  intro kind name o ho
  rw [find?_congr h] at ho
  exact hs kind name o ho

theorem filed_of_insert {s t : MemoryStore} {kind : Kind} {name : Name} {o : Object} (hs : s.Filed)
    (h : t.objects = s.objects.insert (kind, name) o) (hn : o.name = name) : t.Filed := by
  intro k n p hp
  rw [find?_of_insert h] at hp
  split at hp
  · rename_i he
    cases hp
    exact hn.trans he.2
  · exact hs k n p hp

theorem filed_commit {s : MemoryStore} (hs : s.Filed) (kind : Kind) (call : Call) :
    (s.commit kind call).1.Filed := by
  cases call with
  | list scope => exact filed_congr (commit_list s kind scope).2 hs
  | get name => exact filed_congr (commit_get s kind name).2 hs
  | create o =>
    rcases commit_create s kind o with ⟨-, ho⟩ | ⟨-, p, -, hn, -, ho⟩
    · exact filed_congr ho hs
    · exact filed_of_insert hs ho hn
  | update o =>
    rcases commit_update s kind o with ⟨-, ho⟩ | ⟨p, -, hn, -, ho⟩
    · exact filed_congr ho hs
    · exact filed_of_insert hs ho hn
  | updateStatus o =>
    rcases commit_updateStatus s kind o with ⟨-, ho⟩ | ⟨stored, p, hf, -, hn, -, ho⟩
    · exact filed_congr ho hs
    · exact filed_of_insert hs ho (hn.trans (hs kind o.name stored hf))
  | patchMerge name patch =>
    rcases commit_patchMerge s kind name patch with ⟨-, ho⟩ | ⟨stored, p, hf, -, hn, ho⟩
    · exact filed_congr ho hs
    · exact filed_of_insert hs ho (hn.trans (hs kind name stored hf))

theorem filed_perform {s : MemoryStore} (hs : s.Filed) (kind : Kind) (call : Call) :
    (s.perform kind call).1.Filed := by
  rcases s.perform_cases kind call with ⟨-, ho⟩ | ⟨t, ht, hc⟩
  · exact filed_congr ho hs
  · rw [hc]
    exact filed_commit (filed_congr ht hs) kind call

theorem Reached.filed {s : MemoryStore} (h : Reached s) : s.Filed := by
  induction h with
  | empty =>
    intro kind name o ho
    cases ho
  | @insert s kind o _ ih =>
    have ho : (s.insert kind o).1.objects =
        s.objects.insert (kind, (s.stampNew o).2.name) (s.stampNew o).2 := by
      simp [MemoryStore.insert, put]
    exact filed_of_insert ih ho rfl
  | remove kind name _ ih =>
    intro k n o ho
    simp only [MemoryStore.remove, find?, Table.find?_erase] at ho
    split at ho
    · cases ho
    · exact ih k n o ho
  | failNext op f _ ih => exact filed_congr rfl ih
  | hold op name _ ih => exact filed_congr rfl ih
  | openGate gate _ ih => exact filed_congr rfl ih
  | enter op _ ih => exact filed_congr (objects_enter _ op) ih
  | commit kind call _ ih => exact filed_commit ih kind call

theorem mem_ofKind {s : MemoryStore} {kind : Kind} {o : Object} :
    o ∈ s.ofKind kind ↔ ∃ name, s.find? kind name = some o := by
  simp only [ofKind, find?, Table.find?_eq_some, List.mem_map, List.mem_filter, decide_eq_true_eq]
  constructor
  · rintro ⟨⟨⟨k, n⟩, p⟩, ⟨hm, hk⟩, ho⟩
    dsimp only at hk ho
    subst hk
    subst ho
    exact ⟨n, hm⟩
  · rintro ⟨n, hm⟩
    exact ⟨((kind, n), o), ⟨hm, rfl⟩, rfl⟩

theorem Filed.mem_ofKind {s : MemoryStore} (h : s.Filed) {kind : Kind} {o : Object} :
    o ∈ s.ofKind kind ↔ s.find? kind o.name = some o := by
  rw [MemoryStore.mem_ofKind]
  constructor
  · rintro ⟨name, hf⟩
    rwa [h kind name o hf]
  · intro hf
    exact ⟨o.name, hf⟩

end FedTrack.MemoryStore
