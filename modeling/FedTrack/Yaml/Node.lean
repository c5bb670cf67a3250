import FedTrack.Yaml.Scalar

namespace FedTrack.Yaml

/-- A node of a document. Scalars keep whether they were quoted, maps keep every member. -/
inductive Node
  | plain (text : String)
  | quoted (text : String)
  | list (items : List Node)
  | map (members : List (String × Node))
  deriving Repr

namespace Node

/-- A node that is not there. -/
def empty : Node := .plain ""

instance : Inhabited Node := ⟨empty⟩

def scalar? : Node → Option String
  | .plain s => some s
  | .quoted s => some s
  | _ => none

mutual

/-- The document that a node stands for; of a repeated key the last member counts. -/
def toJson : Node → Json
  | .plain s => resolve s
  | .quoted s => .string s
  | .list items => .array (itemsJson items)
  | .map members => .object (membersJson members [])

def itemsJson : List Node → List Json
  | [] => []
  | n :: rest => n.toJson :: itemsJson rest

def membersJson : List (String × Node) → Json.Members → Json.Members
  | [], read => read
  | (key, n) :: rest, read => membersJson rest (Assoc.insert read key n.toJson)

end

mutual

/-- No map has a key twice. -/
def hasUniqueKeys : Node → Bool
  | .plain _ => true
  | .quoted _ => true
  | .list items => itemsUnique items
  | .map members => (members.map (·.1)).eraseDups.length == members.length && membersUnique members

def itemsUnique : List Node → Bool
  | [] => true
  | n :: rest => n.hasUniqueKeys && itemsUnique rest

def membersUnique : List (String × Node) → Bool
  | [] => true
  | (_, n) :: rest => n.hasUniqueKeys && membersUnique rest

end

end Node

end FedTrack.Yaml
