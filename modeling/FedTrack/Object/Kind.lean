import FedTrack.Table.Basic

namespace FedTrack

structure Kind where
  group : String
  version : String
  kind : String
  deriving DecidableEq, Repr, Inhabited

namespace Kind

def apiVersion (k : Kind) : String :=
  if k.group = "" then k.version else k.group ++ "/" ++ k.version

/-- Splits an api version at its first slash; without one the group is empty. -/
def splitApiVersion (s : String) : String × String :=
  let cs := s.toList
  match cs.dropWhile (· ≠ '/') with
  | _ :: rest => (String.ofList (cs.takeWhile (· ≠ '/')), String.ofList rest)
  | [] => ("", s)

def ofApiVersion (apiVersion kind : String) : Kind :=
  let (group, version) := splitApiVersion apiVersion
  ⟨group, version, kind⟩

end Kind

structure Resource where
  group : String
  version : String
  apiVersion : String
  kind : String
  plural : String
  deriving DecidableEq, Repr, Inhabited

namespace Resource

def isVowel (c : Char) : Bool := c = 'a' || c = 'e' || c = 'i' || c = 'o' || c = 'u'

def asciiLower (c : Char) : Char :=
  if 'A' ≤ c && c ≤ 'Z' then Char.ofNat (c.toNat + 32) else c

def endsWith (word ending : List Char) : Bool := ending.isSuffixOf word

def pluralOf (word : List Char) : List Char :=
  if word = "endpoints".toList || word = "endpointslices".toList then word
  else if endsWith word ['s'] || endsWith word ['x'] || endsWith word ['z'] ||
      endsWith word ['c', 'h'] || endsWith word ['s', 'h'] then word ++ ['e', 's']
  else if endsWith word ['y'] && 2 ≤ word.length &&
      (word[word.length - 2]?.any fun c => !isVowel c) then
    word.dropLast ++ ['i', 'e', 's']
  else word ++ ['s']

def defaultPlural (kind : String) : String :=
  String.ofList (pluralOf (kind.toList.map asciiLower))

def ofKind (k : Kind) : Resource :=
  ⟨k.group, k.version, k.apiVersion, k.kind, defaultPlural k.kind⟩

def toKind (r : Resource) : Kind := ⟨r.group, r.version, r.kind⟩

end Resource

instance : Key Kind where
  decEq := inferInstance
  lt a b := Key.lt (a.group, a.version, a.kind) (b.group, b.version, b.kind)
  irrefl a := Key.irrefl (a.group, a.version, a.kind)
  trans h₁ h₂ := Key.trans h₁ h₂
  total a b := by
    rcases Key.total (a.group, a.version, a.kind) (b.group, b.version, b.kind) with h | h | h
    · exact Or.inl h
    · refine Or.inr (Or.inl ?_)
      cases a
      cases b
      simpa using h
    · exact Or.inr (Or.inr h)

end FedTrack
