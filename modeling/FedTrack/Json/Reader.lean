import FedTrack.Json.Value

namespace FedTrack.Json.Reader

def isBlank (c : Char) : Bool := c = ' ' || c = '\n' || c = '\t' || c = '\r'

def skipBlank (cs : List Char) : List Char := cs.dropWhile isBlank

def digitValue (c : Char) : Nat := c.toNat - 48

/-- Largest significand that is kept exactly; digits that would exceed it are dropped. -/
def maxSignificand : Nat := 0xffffffffffffffff

/-- A run of digits: the significand as far as it fits, how many digits went into it, how
many were left out, and the rest. -/
def digitRun : List Char → Nat → Nat → Nat → Nat × Nat × Nat × List Char
  | [], s, kept, dropped => (s, kept, dropped, [])
  | c :: cs, s, kept, dropped =>
    if c.isDigit then
      let s' := s * 10 + digitValue c
      if dropped = 0 && s' ≤ maxSignificand then digitRun cs s' (kept + 1) 0
      else digitRun cs s kept (dropped + 1)
    else (s, kept, dropped, c :: cs)

def exponentDigits : List Char → Nat → Nat × List Char
  | [], n => (n, [])
  | c :: cs, n => if c.isDigit then exponentDigits cs (n * 10 + digitValue c) else (n, c :: cs)

def maxExponentDigits : Nat := 0x7fffffff

def finish (negative : Bool) (s : Nat) (exponent : Int) (rest : List Char) :
    Option (Json × List Char) :=
  (Double.ofDecimal negative s exponent).map fun d => (.number (.double d), rest)

/-- After `e`: an optional sign and at least one digit. -/
def exponentPart (negative : Bool) (s : Nat) (start : Int) (cs : List Char) :
    Option (Json × List Char) :=
  let (down, cs) := match cs with
    | '+' :: r => (false, r)
    | '-' :: r => (true, r)
    | r => (false, r)
  match cs with
  | c :: _ =>
    if c.isDigit then
      let (n, rest) := exponentDigits cs 0
      if maxExponentDigits < n then
        if s ≠ 0 && !down then none
        else some (.number (.double (Double.zero negative)), rest)
      else finish negative s (if down then start - n else start + n) rest
    else none
  | [] => none

def fractionPart (negative : Bool) (s : Nat) (dropped : Nat) (cs : List Char) :
    Option (Json × List Char) :=
  match cs with
  | c :: _ =>
    if c.isDigit then
      let (s, kept, _, rest) := digitRun cs s 0 0
      let exponent : Int := dropped - kept
      match rest with
      | 'e' :: r | 'E' :: r => exponentPart negative s exponent r
      | r => finish negative s exponent r
    else none
  | [] => none

/-- A number without its sign. A whole number within 64 bits is kept exactly. -/
def unsigned (negative : Bool) (cs : List Char) : Option (Json × List Char) :=
  match cs with
  | [] => none
  | c :: r =>
    if !c.isDigit then none
    else if c = '0' && (match r with | d :: _ => d.isDigit | [] => false) then none
    else
      let (s, _, dropped, rest) := digitRun cs 0 0 0
      match rest with
      | '.' :: r => fractionPart negative s dropped r
      | 'e' :: r | 'E' :: r => exponentPart negative s dropped r
      | r =>
        if dropped ≠ 0 then finish negative s dropped r
        else if !negative then some (.number (.whole s), r)
        else if s = 0 || 0x8000000000000000 < s then
          (Double.ofNat s).map fun d => (.number (.double d.neg), r)
        else some (.number (.whole (-(s : Int))), r)

def hexValue (c : Char) : Option Nat :=
  if c.isDigit then some (c.toNat - 48)
  else if 'a' ≤ c && c ≤ 'f' then some (c.toNat - 87)
  else if 'A' ≤ c && c ≤ 'F' then some (c.toNat - 55)
  else none

def hex4 : List Char → Option (Nat × List Char)
  | a :: b :: c :: d :: r => do
    let a ← hexValue a
    let b ← hexValue b
    let c ← hexValue c
    let d ← hexValue d
    some (((a * 16 + b) * 16 + c) * 16 + d, r)
  | _ => none

/-- After `\u`: one code point, given by one unit or by a pair of surrogates. -/
def unicodeEscape (cs : List Char) : Option (Char × List Char) := do
  let (n, r) ← hex4 cs
  if 0xD800 ≤ n && n ≤ 0xDBFF then
    match r with
    | '\\' :: 'u' :: r =>
      let (m, r) ← hex4 r
      if 0xDC00 ≤ m && m ≤ 0xDFFF then
        some (Char.ofNat (0x10000 + (n - 0xD800) * 0x400 + (m - 0xDC00)), r)
      else none
    | _ => none
  else if 0xDC00 ≤ n && n ≤ 0xDFFF then none
  else some (Char.ofNat n, r)

/-- The rest of a string after its opening quote; `fuel` bounds the characters read. -/
def stringBody : Nat → List Char → List Char → Option (String × List Char)
  | 0, _, _ => none
  | _ + 1, [], _ => none
  | fuel + 1, c :: cs, acc =>
    if c = '"' then some (String.ofList acc.reverse, cs)
    else if c.toNat < 32 then none
    else if c = '\\' then
      match cs with
      | '"' :: r => stringBody fuel r ('"' :: acc)
      | '\\' :: r => stringBody fuel r ('\\' :: acc)
      | '/' :: r => stringBody fuel r ('/' :: acc)
      | 'b' :: r => stringBody fuel r ('\x08' :: acc)
      | 'f' :: r => stringBody fuel r ('\x0c' :: acc)
      | 'n' :: r => stringBody fuel r ('\n' :: acc)
      | 'r' :: r => stringBody fuel r ('\r' :: acc)
      | 't' :: r => stringBody fuel r ('\t' :: acc)
      | 'u' :: r =>
        match unicodeEscape r with
        | some (u, r) => stringBody fuel r (u :: acc)
        | none => none
      | _ => none
    else stringBody fuel cs (c :: acc)

def literal (word : List Char) (value : Json) (cs : List Char) : Option (Json × List Char) :=
  if word.isPrefixOf cs then some (value, cs.drop word.length) else none

def maxDepth : Nat := 127

mutual

/-- One value and the rest; `fuel` bounds the characters read, `depth` the nesting left. -/
def value : Nat → Nat → List Char → Option (Json × List Char)
  | 0, _, _ => none
  | fuel + 1, depth, cs =>
    match skipBlank cs with
    | 'n' :: r => literal ['u', 'l', 'l'] .null r
    | 't' :: r => literal ['r', 'u', 'e'] (.bool true) r
    | 'f' :: r => literal ['a', 'l', 's', 'e'] (.bool false) r
    | '-' :: r => unsigned true r
    | '"' :: r => (stringBody (r.length + 1) r []).map fun (s, r) => (.string s, r)
    | '[' :: r =>
      match depth with
      | 0 => none
      | depth + 1 =>
        match skipBlank r with
        | ']' :: r => some (.array [], r)
        | r => items fuel depth r []
    | '{' :: r =>
      match depth with
      | 0 => none
      | depth + 1 =>
        match skipBlank r with
        | '}' :: r => some (.object [], r)
        | r => members fuel depth r []
    | r => unsigned false r

/-- The items of an array after its bracket, at least one. -/
def items : Nat → Nat → List Char → List Json → Option (Json × List Char)
  | 0, _, _, _ => none
  | fuel + 1, depth, cs, acc =>
    match value fuel depth cs with
    | none => none
    | some (j, r) =>
      match skipBlank r with
      | ',' :: r => items fuel depth r (j :: acc)
      | ']' :: r => some (.array (j :: acc).reverse, r)
      | _ => none

/-- The members of an object after its brace, at least one. -/
def members : Nat → Nat → List Char → Members → Option (Json × List Char)
  | 0, _, _, _ => none
  | fuel + 1, depth, cs, acc =>
    match skipBlank cs with
    | '"' :: r =>
      match stringBody (r.length + 1) r [] with
      | none => none
      | some (k, r) =>
        match skipBlank r with
        | ':' :: r =>
          match value fuel depth r with
          | none => none
          | some (j, r) =>
            let acc := Assoc.insert acc k j
            match skipBlank r with
            | ',' :: r => members fuel depth r acc
            | '}' :: r => some (.object acc, r)
            | _ => none
        | _ => none
    | _ => none

end

def document (cs : List Char) : Option Json :=
  match value (cs.length + 1) maxDepth cs with
  | some (j, r) => if (skipBlank r).isEmpty then some j else none
  | none => none

end FedTrack.Json.Reader

namespace FedTrack.Json

def parse (s : String) : Option Json := Reader.document s.toList

end FedTrack.Json
