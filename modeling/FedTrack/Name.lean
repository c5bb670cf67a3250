import FedTrack.Table.Basic

namespace FedTrack

/-- Identity of an object: its namespace, empty for objects of the whole cluster, and its
name. -/
structure Name where
  scope : String
  name : String
  deriving DecidableEq, Repr, Inhabited

namespace Name

instance : Key Name where
  decEq := inferInstance
  lt a b := Key.lt (a.scope, a.name) (b.scope, b.name)
  irrefl a := Key.irrefl (a.scope, a.name)
  trans h₁ h₂ := Key.trans h₁ h₂
  total a b := by
    rcases Key.total (a.scope, a.name) (b.scope, b.name) with h | h | h
    · exact Or.inl h
    · refine Or.inr (Or.inl ?_)
      cases a
      cases b
      simpa using h
    · exact Or.inr (Or.inr h)

def clusterWide (name : String) : Name := ⟨"", name⟩

def isClusterWide (n : Name) : Bool := n.scope == ""

def scope? (n : Name) : Option String := if n.scope = "" then none else some n.scope

def withName (n : Name) (name : String) : Name := ⟨n.scope, name⟩

/-- `namespace/name`, or the bare name without a namespace. -/
def display (n : Name) : String := if n.scope = "" then n.name else n.scope ++ "/" ++ n.name

/-- Splits at the first slash. -/
def splitSlash : List Char → Option (List Char × List Char)
  | [] => none
  | c :: cs =>
    if c = '/' then some ([], cs) else (splitSlash cs).map fun (a, b) => (c :: a, b)

/-- Text before the first slash is the namespace; without a slash all is the name. -/
def parse (s : String) : Name :=
  match splitSlash s.toList with
  | some (scope, name) => ⟨String.ofList scope, String.ofList name⟩
  | none => clusterWide s

def sort (l : List Name) : List Name := l.mergeSort fun a b => !Key.lt b a

/-- In ascending order, each name once. -/
def sortUnique (l : List Name) : List Name :=
  (l.foldl (fun (t : Table Name Unit) n => t.insert n ()) .empty).keys

end Name

instance : ToString Name := ⟨Name.display⟩

end FedTrack
