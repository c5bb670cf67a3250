import FedTrack.Json.Double
import FedTrack.Table.Basic

namespace FedTrack

/-- Numbers of a document: whole ones are exact, all others are doubles, and a double is
never the same as a whole number. -/
inductive Number
  | whole (value : Int)
  | double (value : Double)
  deriving DecidableEq, Repr

def Number.agrees : Number → Number → Bool
  | .whole a, .whole b => a == b
  | .double a, .double b => a.agrees b
  | _, _ => false

/-- A document. The members of an object are kept in ascending order of their names. -/
inductive Json
  | null
  | bool (value : Bool)
  | number (value : Number)
  | string (value : String)
  | array (items : List Json)
  | object (members : List (String × Json))

instance : Inhabited Json := ⟨.null⟩

namespace Json

abbrev Members := List (String × Json)

mutual

/-- Equality of values; the two zeros of a double agree. -/
def agrees : Json → Json → Bool
  | .null, .null => true
  | .bool a, .bool b => a == b
  | .number a, .number b => a.agrees b
  | .string a, .string b => a == b
  | .array a, .array b => itemsAgree a b
  | .object a, .object b => membersAgree a b
  | _, _ => false

def itemsAgree : List Json → List Json → Bool
  | [], [] => true
  | a :: as, b :: bs => agrees a b && itemsAgree as bs
  | _, _ => false

def membersAgree : List (String × Json) → List (String × Json) → Bool
  | [], [] => true
  | (k, a) :: as, (l, b) :: bs => k == l && agrees a b && membersAgree as bs
  | _, _ => false

end

def ofNat (n : Nat) : Json := .number (.whole n)

def ofInt (i : Int) : Json := .number (.whole i)

/-- An object from its members in any order; of a repeated name the last member counts. -/
def ofMembers (members : List (String × Json)) : Json :=
  .object (members.foldl (fun m e => Assoc.insert m e.1 e.2) [])

def members? : Json → Option Members
  | .object m => some m
  | _ => none

def items? : Json → Option (List Json)
  | .array l => some l
  | _ => none

def string? : Json → Option String
  | .string s => some s
  | _ => none

def bool? : Json → Option Bool
  | .bool b => some b
  | _ => none

def int? : Json → Option Int
  | .number (.whole i) => some i
  | _ => none

def isNull : Json → Bool
  | .null => true
  | _ => false

def member? (j : Json) (name : String) : Option Json :=
  match j with
  | .object m => Assoc.find? m name
  | _ => none

/-- The document with one member set; all but an object is replaced by an object that has
this member only. -/
def setMember (j : Json) (name : String) (value : Json) : Json :=
  match j with
  | .object m => .object (Assoc.insert m name value)
  | _ => .object [(name, value)]

def dropMember (j : Json) (name : String) : Json :=
  match j with
  | .object m => .object (Assoc.erase m name)
  | other => other

/-- What a reader of an error text calls the kind of a document. -/
def kindWord : Json → String
  | .null => "null"
  | .bool _ => "bool"
  | .number _ => "number"
  | .string _ => "string"
  | .array _ => "array"
  | .object _ => "map"

mutual

/-- Every object within the document has its members in strictly ascending order. -/
def Ordered : Json → Prop
  | .array items => itemsOrdered items
  | .object members => Assoc.Sorted members ∧ membersOrdered members
  | _ => True

def itemsOrdered : List Json → Prop
  | [] => True
  | j :: rest => Ordered j ∧ itemsOrdered rest

def membersOrdered : List (String × Json) → Prop
  | [] => True
  | (_, j) :: rest => Ordered j ∧ membersOrdered rest

end

mutual

def decEq : (a b : Json) → Decidable (a = b)
  | .null, .null => isTrue rfl
  | .bool a, .bool b => if h : a = b then isTrue (by rw [h]) else isFalse (by simp [h])
  | .number a, .number b => if h : a = b then isTrue (by rw [h]) else isFalse (by simp [h])
  | .string a, .string b => if h : a = b then isTrue (by rw [h]) else isFalse (by simp [h])
  | .array a, .array b =>
    match decEqItems a b with
    | isTrue h => isTrue (by rw [h])
    | isFalse h => isFalse (by simp [h])
  | .object a, .object b =>
    match decEqMembers a b with
    | isTrue h => isTrue (by rw [h])
    | isFalse h => isFalse (by simp [h])
  | .null, .bool _ | .null, .number _ | .null, .string _ | .null, .array _ | .null, .object _
  | .bool _, .null | .bool _, .number _ | .bool _, .string _ | .bool _, .array _
  | .bool _, .object _
  | .number _, .null | .number _, .bool _ | .number _, .string _ | .number _, .array _
  | .number _, .object _
  | .string _, .null | .string _, .bool _ | .string _, .number _ | .string _, .array _
  | .string _, .object _
  | .array _, .null | .array _, .bool _ | .array _, .number _ | .array _, .string _
  | .array _, .object _
  | .object _, .null | .object _, .bool _ | .object _, .number _ | .object _, .string _
  | .object _, .array _ => isFalse (by simp)

def decEqItems : (a b : List Json) → Decidable (a = b)
  | [], [] => isTrue rfl
  | [], _ :: _ | _ :: _, [] => isFalse (by simp)
  | a :: as, b :: bs =>
    match decEq a b, decEqItems as bs with
    | isTrue h, isTrue h' => isTrue (by rw [h, h'])
    | isFalse h, _ => isFalse (by simp [h])
    | _, isFalse h => isFalse (by simp [h])

def decEqMembers : (a b : List (String × Json)) → Decidable (a = b)
  | [], [] => isTrue rfl
  | [], _ :: _ | _ :: _, [] => isFalse (by simp)
  | (k, a) :: as, (l, b) :: bs =>
    if hk : k = l then
      match decEq a b, decEqMembers as bs with
      | isTrue h, isTrue h' => isTrue (by rw [hk, h, h'])
      | isFalse h, _ => isFalse (by simp [h])
      | _, isFalse h => isFalse (by simp [h])
    else isFalse (by simp [hk])

end

instance : DecidableEq Json := decEq

end Json

end FedTrack
