import FedTrack.Table.Assoc

namespace FedTrack

/-- A finite map whose entries are kept in ascending order of their keys. -/
structure Table (α β : Type) [Key α] where
  entries : List (α × β)
  sorted : Assoc.Sorted entries

namespace Table

variable {α β : Type} [Key α]

instance [DecidableEq β] : DecidableEq (Table α β) := fun a b =>
  if h : a.entries = b.entries then
    isTrue (by cases a; cases b; simp_all)
  else isFalse fun he => h (he ▸ rfl)

def empty : Table α β := ⟨[], trivial⟩

instance : Inhabited (Table α β) := ⟨empty⟩

instance : EmptyCollection (Table α β) := ⟨empty⟩

def find? (t : Table α β) (a : α) : Option β := Assoc.find? t.entries a

def insert (t : Table α β) (a : α) (b : β) : Table α β :=
  ⟨Assoc.insert t.entries a b, Assoc.sorted_insert t.sorted a b⟩

def erase (t : Table α β) (a : α) : Table α β :=
  ⟨Assoc.erase t.entries a, Assoc.sorted_erase t.sorted a⟩

def contains (t : Table α β) (a : α) : Bool := (t.find? a).isSome

def keys (t : Table α β) : List α := t.entries.map Prod.fst

def values (t : Table α β) : List β := t.entries.map Prod.snd

def size (t : Table α β) : Nat := t.entries.length

/-- Later entries win. -/
def ofList (l : List (α × β)) : Table α β := l.foldl (fun t e => t.insert e.1 e.2) empty

@[simp] theorem find?_empty (a : α) : (empty : Table α β).find? a = none := rfl

@[simp] theorem find?_insert (t : Table α β) (a : α) (b : β) (c : α) :
    (t.insert a b).find? c = if a = c then some b else t.find? c :=
  Assoc.find?_insert t.entries a b c

@[simp] theorem find?_erase (t : Table α β) (a c : α) :
    (t.erase a).find? c = if a = c then none else t.find? c :=
  Assoc.find?_erase t.entries a c

theorem find?_eq_some (t : Table α β) {a : α} {b : β} :
    t.find? a = some b ↔ (a, b) ∈ t.entries :=
  Assoc.find?_eq_some t.sorted

/-- Two tables that map every key alike are equal. -/
@[ext] theorem ext {t u : Table α β} (h : ∀ a, t.find? a = u.find? a) : t = u := by
  have he : t.entries = u.entries := Assoc.ext t.sorted u.sorted h
  cases t
  cases u
  simp_all

end Table

end FedTrack
