import FedTrack.Yaml.Literal
import FedTrack.Yaml.Node
import FedTrack.Yaml.Plain
import FedTrack.Yaml.Quoted

namespace FedTrack.Yaml

/-- A key has to stand on one line with its colon, and not too far from it. -/
def mayBeKey (start colon : Cursor) : Bool :=
  start.line = colon.line && colon.column ≤ start.column + 1024

/-! Collections in brackets -/

mutual

/-- A node within brackets, at its first character. -/
def flowNode : Nat → Nat → Cursor → Option (Node × Cursor)
  | 0, _, _ => none
  | fuel + 1, least, c =>
    if atEnd c then none
    else
      match c.rest with
      | '[' :: _ => flowItems fuel least (nextFlowToken c.advance) []
      | '{' :: _ => flowMembers fuel least (nextFlowToken c.advance) []
      | '"' :: _ | '\'' :: _ => (quoted? c).map fun (s, c) => (.quoted s, c)
      | _ => (plain? true least c).map fun (s, c) => (.plain s, c)

/-- The items of a list, at the next one or at the closing bracket; `read` is reversed. An item
may be a map of one member. -/
def flowItems : Nat → Nat → Cursor → List Node → Option (Node × Cursor)
  | 0, _, _, _ => none
  | fuel + 1, least, c, read =>
    match c.rest with
    | ']' :: _ => some (.list read.reverse, c.advance)
    | _ => do
      let (item, after) ← flowNode fuel least c
      let after := nextFlowToken after
      let (item, after) ← match after.rest with
        | ':' :: _ => do
          let (key, value, after) ← flowMember fuel least c item after
          some (.map [(key, value)], after)
        | _ => some (item, after)
      match after.rest with
      | ',' :: _ => flowItems fuel least (nextFlowToken after.advance) (item :: read)
      | ']' :: _ => some (.list (item :: read).reverse, after.advance)
      | _ => none

/-- The members of a map, at the next one or at the closing brace; `read` is reversed. -/
def flowMembers : Nat → Nat → Cursor → List (String × Node) → Option (Node × Cursor)
  | 0, _, _, _ => none
  | fuel + 1, least, c, read =>
    match c.rest with
    | '}' :: _ => some (.map read.reverse, c.advance)
    | _ => do
      let (key, after) ← flowNode fuel least c
      let (key, value, after) ← flowMember fuel least c key (nextFlowToken after)
      match after.rest with
      | ',' :: _ => flowMembers fuel least (nextFlowToken after.advance) ((key, value) :: read)
      | '}' :: _ => some (.map ((key, value) :: read).reverse, after.advance)
      | _ => none

/-- A member whose key begins at `start`, and the next token. The value may be left out, with
or without the colon at the cursor. -/
def flowMember : Nat → Nat → Cursor → Node → Cursor → Option (String × Node × Cursor)
  | 0, _, _, _, _ => none
  | fuel + 1, least, start, key, c => do
    let key ← key.scalar?
    match c.rest with
    | ':' :: _ =>
      if mayBeKey start c then
        let next := nextFlowToken c.advance
        match next.rest with
        | ',' :: _ | ']' :: _ | '}' :: _ => some (key, .empty, next)
        | _ => do
          let (value, after) ← flowNode fuel least next
          some (key, value, nextFlowToken after)
      else none
    | _ => some (key, .empty, c)

end

/-! Collections by indentation -/

/-- Nothing but a comment may follow on the line. -/
def endsLine (c : Cursor) : Bool :=
  match (skipBlanks c).rest with
  | [] => true
  | d :: _ => isBreak d || d = '#'

/-- A key on one line: its text and the cursor after the colon. -/
def key? (least : Nat) (c : Cursor) : Option (String × Cursor) := do
  let (key, after) ← match c.rest with
    | '"' :: _ | '\'' :: _ => quoted? c
    | _ => plain? false least c
  let colon := skipBlanks after
  if mayBeKey c colon && endsKey colon.rest then some (key, colon.advance) else none

/-- A scalar or a collection in brackets that is all of a value. -/
def inline? (least : Nat) (c : Cursor) : Option (Node × Cursor) := do
  match c.rest with
  | '[' :: _ | '{' :: _ =>
    let (n, after) ← flowNode (2 * c.rest.length + 2) least c
    if endsLine after then some (n, after) else none
  | '"' :: _ | '\'' :: _ =>
    let (s, after) ← quoted? c
    if endsLine after then some (.quoted s, after) else none
  | '|' :: _ | '>' :: _ => (literal? least c).map fun (s, after) => (.quoted s, after)
  | _ =>
    let (s, after) ← plain? false least c
    if endsKey after.rest then none else some (.plain s, after)

def isDash (c : Cursor) : Bool :=
  match c.rest with
  | '-' :: rest => endsMark rest
  | _ => false

/-- The next token after a complete node. -/
def afterNode (c : Cursor) : Cursor := nextToken (0 < c.column) c

mutual

/-- A node that begins at the column `least` or beyond, at its first token. -/
def node : Nat → Nat → Cursor → Option (Node × Cursor)
  | 0, _, _ => none
  | fuel + 1, least, c =>
    if atEnd c || c.column < least then some (.empty, c)
    else if isDash c then items fuel c.column c []
    else if (key? least c).isSome then members fuel c.column c []
    else inline? least c

/-- The items of a list whose dashes stand at a column; `read` is reversed. -/
def items : Nat → Nat → Cursor → List Node → Option (Node × Cursor)
  | 0, _, _, _ => none
  | fuel + 1, column, c, read => do
    let (item, after) ← node fuel (column + 1) (nextToken false c.advance)
    let next := afterNode after
    if !atEnd next && next.column = column && isDash next then
      items fuel column next (item :: read)
    else if atEnd next || next.column ≤ column then some (.list (item :: read).reverse, next)
    else none

/-- The value after a key of a map at a column: on the same line, or on the next ones, where
the dashes of a list may stand at the map's own column. -/
def value : Nat → Nat → Cursor → Option (Node × Cursor)
  | 0, _, _ => none
  | fuel + 1, column, c =>
    let start := nextToken true c
    if atEnd start then some (.empty, start)
    else if start.line = c.line then inline? (column + 1) start
    else if start.column = column && isDash start then items fuel column start []
    else node fuel (column + 1) start

/-- The members of a map whose keys stand at a column; `read` is reversed. -/
def members : Nat → Nat → Cursor → List (String × Node) → Option (Node × Cursor)
  | 0, _, _, _ => none
  | fuel + 1, column, c, read => do
    let (key, c) ← key? column c
    let (n, after) ← value fuel column c
    let next := afterNode after
    let read := (key, n) :: read
    if atEnd next || next.column < column then some (.map read.reverse, next)
    else if next.column = column then members fuel column next read
    else none

end

/-! Documents -/

/-- Passes lines that begin with a percent sign; tells whether there are any. -/
def directives : Nat → Bool → Cursor → Bool × Cursor
  | 0, found, c => (found, c)
  | fuel + 1, found, c =>
    let c := nextToken false c
    match c.column, c.rest with
    | 0, '%' :: _ => directives fuel true (skipLine c)
    | _, _ => (found, c)

/-- The node of a document after its mark. On the line of the mark no collection begins that is
written by indentation. -/
def marked? (fuel : Nat) (c : Cursor) : Option (Node × Cursor) :=
  let start := nextToken true c
  if start.line = c.line && !start.rest.isEmpty then inline? 0 start else node fuel 0 start

/-- Passes the marks that end a document. -/
def endMarks : Nat → Cursor → Cursor
  | 0, c => c
  | fuel + 1, c =>
    let c := nextToken (0 < c.column) c
    if isMark '.' c then endMarks fuel (c.advanceBy 3) else c

/-- The documents of a text. Only the first one goes without a mark. -/
def documentsFrom : Nat → Bool → Cursor → Option (List Node)
  | 0, _, _ => none
  | fuel + 1, first, c => do
    let (found, c) := directives (c.rest.length + 1) false c
    let steps := 2 * c.rest.length + 2
    if c.rest.isEmpty && !found then some []
    else
      let (n, after) ←
        if isMark '-' c then marked? steps (c.advanceBy 3)
        else if first && !found && !isMark '.' c then node steps 0 c
        else none
      let next := afterNode after
      if atEnd next then some (n :: (← documentsFrom fuel false (endMarks next.rest.length next)))
      else none

/-- Characters that a text may hold. -/
def isPrintable (c : Char) : Bool :=
  let n := c.toNat
  c = '\t' || c = '\n' || (0x20 ≤ n && n ≤ 0x7e) || n = 0x85 || (0xa0 ≤ n && n ≤ 0xfffd) ||
    0x10000 ≤ n

/-- Line ends of all kinds become the same. -/
def unifyBreaks : List Char → List Char
  | '\r' :: '\n' :: rest => '\n' :: unifyBreaks rest
  | '\r' :: rest => '\n' :: unifyBreaks rest
  | c :: rest => c :: unifyBreaks rest
  | [] => []

/-- Reads all documents of a text; `none` if it is malformed. -/
def nodes? (s : String) : Option (List Node) :=
  let cs := unifyBreaks s.toList
  if cs.all isPrintable then documentsFrom (cs.length + 2) true ⟨0, 0, cs⟩ else none

/-- The documents that a text stands for. -/
def parse (s : String) : Option (List Json) := (nodes? s).map (·.map (·.toJson))

end FedTrack.Yaml
