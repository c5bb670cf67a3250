import FedTrack.Text.Space
import FedTrack.Yaml.Scalar

namespace FedTrack.Settings.Variable

/-! The value that the text of an environment variable stands for. -/

def isAsciiSpace (c : Char) : Bool := [' ', '\t', '\n', '\x0c', '\r'].contains c

def skipSpace (cs : List Char) : List Char := cs.dropWhile isAsciiSpace

def isSeparator (c : Char) : Bool := [',', '{', '}', '[', ']'].contains c

def isNameChar (c : Char) : Bool := c.isAlphanum || c = '_' || c = '-'

/-- The rest of `cs` if it begins with `word`. -/
def afterWord? (word cs : List Char) : Option (List Char) :=
  if word.isPrefixOf cs then some (cs.drop word.length) else none

def codePoint? (length : Nat) (cs : List Char) : Option Char := do
  let digits := cs.take length
  let n ← Yaml.number? 16 digits
  if digits.length = length && (n < 0xd800 || 0xdfff < n) && n < 0x110000 then some (Char.ofNat n)
  else none

/-- Control characters have to be escaped, all but the tab. -/
def isPlain (c : Char) : Bool := c = '\t' || (' ' ≤ c && c.toNat ≠ 0x7f)

/-- The text up to the closing quote, and the rest; `read` is reversed. -/
def quotedFrom : Nat → List Char → List Char → Option (String × List Char)
  | 0, _, _ => none
  | fuel + 1, read, cs =>
    match cs with
    | '"' :: rest => some (String.ofList read.reverse, rest)
    | '\\' :: d :: rest =>
      match d with
      | '"' => quotedFrom fuel ('"' :: read) rest
      | '\\' => quotedFrom fuel ('\\' :: read) rest
      | 'b' => quotedFrom fuel ('\x08' :: read) rest
      | 'f' => quotedFrom fuel ('\x0c' :: read) rest
      | 'n' => quotedFrom fuel ('\n' :: read) rest
      | 'r' => quotedFrom fuel ('\r' :: read) rest
      | 't' => quotedFrom fuel ('\t' :: read) rest
      | 'u' => (codePoint? 4 rest).bind fun c => quotedFrom fuel (c :: read) (rest.drop 4)
      | 'U' => (codePoint? 8 rest).bind fun c => quotedFrom fuel (c :: read) (rest.drop 8)
      | _ => none
    | c :: rest => if isPlain c then quotedFrom fuel (c :: read) rest else none
    | [] => none

def quoted (cs : List Char) : Option (String × List Char) :=
  (afterWord? ['"'] cs).bind fun rest => quotedFrom (rest.length + 1) [] rest

def whole? (cs : List Char) : Option Int :=
  let (negative, digits) := Yaml.sign cs
  (Yaml.number? 10 digits).bind fun n =>
    let i : Int := if negative then -(n : Int) else n
    if Json.minInt64 ≤ i && i ≤ Json.maxNat64 then some i else none

/-- What is neither marked nor a number is a text. Only a number with a point is a double. -/
def bare (cs : List Char) : Json :=
  let cs := trimSpace cs
  let isDouble := cs.contains '.' && (Yaml.decimal? (Yaml.sign cs).2).isSome
  if isDouble then .number (.double ((Yaml.double? cs).getD (.zero false)))
  else
    match whole? cs with
    | some i => .number (.whole i)
    | none => .string (String.ofList cs)

def name (cs : List Char) : Option (String × List Char) :=
  match cs with
  | '"' :: _ => quoted cs
  | _ =>
    let word := cs.takeWhile isNameChar
    if word.isEmpty then none else some (String.ofList word, cs.drop word.length)

mutual

def value : Nat → List Char → Option (Json × List Char)
  | 0, _ => none
  | fuel + 1, cs => do
    let (j, rest) ← marked fuel (skipSpace cs)
    some (j, skipSpace rest)

/-- A value without white space around it. -/
def marked : Nat → List Char → Option (Json × List Char)
  | 0, _ => none
  | fuel + 1, cs =>
    match afterWord? "true".toList cs, afterWord? "false".toList cs with
    | some rest, _ => some (.bool true, rest)
    | none, some rest => some (.bool false, rest)
    | none, none =>
      match cs with
      | '{' :: rest => members fuel [] rest
      | '[' :: rest => items fuel [] rest
      | '"' :: _ => (quoted cs).map fun (s, rest) => (.string s, rest)
      | '\'' :: rest =>
        match rest with
        | c :: '\'' :: rest => some (.string (String.singleton c), rest)
        | _ => none
      | _ =>
        let word := cs.takeWhile fun c => !isSeparator c
        some (bare word, cs.drop word.length)

/-- Items up to the closing bracket, separated by commas; `read` is reversed. -/
def items : Nat → List Json → List Char → Option (Json × List Char)
  | 0, _, _ => none
  | fuel + 1, read, cs =>
    match cs with
    | ']' :: rest => some (.array read.reverse, rest)
    | _ => do
      let (j, rest) ← value fuel cs
      match rest with
      | ',' :: rest => items fuel (j :: read) rest
      | ']' :: rest => some (.array (j :: read).reverse, rest)
      | _ => none

def members : Nat → Json.Members → List Char → Option (Json × List Char)
  | 0, _, _ => none
  | fuel + 1, read, cs =>
    match cs with
    | '}' :: rest => some (.object read, rest)
    | _ => do
      let (key, rest) ← name (skipSpace cs)
      let rest ← afterWord? ['='] (skipSpace rest)
      let (j, rest) ← value fuel rest
      let read := Assoc.insert read key j
      match rest with
      | ',' :: rest => members fuel read rest
      | '}' :: rest => some (.object read, rest)
      | _ => none

end

/-- What has no form of its own is a text. -/
def ofText (s : String) : Json :=
  let cs := trimSpace s.toList
  match value (3 * cs.length + 3) cs with
  | some (j, []) => j
  | _ => .string (String.ofList cs)

end FedTrack.Settings.Variable
