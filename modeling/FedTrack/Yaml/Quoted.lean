import FedTrack.Yaml.Cursor
import FedTrack.Yaml.Scalar

namespace FedTrack.Yaml

/-! Scalars in quotes -/

/-- A gap within quotes, which does not reach the end of the document. -/
def quotedGap? (c : Cursor) : Option Gap := do
  let g ← gap? 0 c
  if atEnd g.after then none else some g

/-- The rest of a scalar in single quotes; `read` is reversed. -/
def singleQuoted : Nat → List Char → Cursor → Option (String × Cursor)
  | 0, _, _ => none
  | fuel + 1, read, c =>
    match c.rest with
    | [] => none
    | '\'' :: '\'' :: _ => singleQuoted fuel ('\'' :: read) (c.advanceBy 2)
    | '\'' :: _ => some (String.ofList read.reverse, c.advance)
    | d :: _ =>
      if isBlank d || isBreak d then do
        let g ← quotedGap? c
        singleQuoted fuel (g.text.reverse ++ read) g.after
      else singleQuoted fuel (d :: read) c.advance

/-- The character that a letter after a backslash stands for. -/
def escaped? : Char → Option Char
  | '0' => some '\x00'
  | 'a' => some '\x07'
  | 'b' => some '\x08'
  | 't' | '\t' => some '\t'
  | 'n' => some '\n'
  | 'v' => some '\x0b'
  | 'f' => some '\x0c'
  | 'r' => some '\r'
  | 'e' => some '\x1b'
  | ' ' => some ' '
  | '"' => some '"'
  | '/' => some '/'
  | '\\' => some '\\'
  | 'N' => some (Char.ofNat 0x85)
  | '_' => some (Char.ofNat 0xa0)
  | 'L' => some (Char.ofNat 0x2028)
  | 'P' => some (Char.ofNat 0x2029)
  | _ => none

/-- How many digits follow a letter that starts a code point. -/
def codeLength? : Char → Option Nat
  | 'x' => some 2
  | 'u' => some 4
  | 'U' => some 8
  | _ => none

/-- The code point in the first `length` characters. -/
def codePoint? (length : Nat) (cs : List Char) : Option Char := do
  let digits := cs.take length
  let n ← number? 16 digits
  if digits.length = length && (n < 0xd800 || 0xdfff < n) && n < 0x110000 then some (Char.ofNat n)
  else none

/-- The rest of a scalar in double quotes; `read` is reversed. A backslash at the end of a line
joins it to the next one. -/
def doubleQuoted : Nat → List Char → Cursor → Option (String × Cursor)
  | 0, _, _ => none
  | fuel + 1, read, c =>
    match c.rest with
    | [] => none
    | '"' :: _ => some (String.ofList read.reverse, c.advance)
    | '\\' :: '\n' :: _ => do
      let g ← quotedGap? (c.advanceBy 2)
      doubleQuoted fuel (List.replicate g.breaks '\n' ++ read) g.after
    | '\\' :: d :: rest =>
      match escaped? d, codeLength? d with
      | some e, _ => doubleQuoted fuel (e :: read) (c.advanceBy 2)
      | none, some n => do
        let e ← codePoint? n rest
        doubleQuoted fuel (e :: read) (c.advanceBy (2 + n))
      | none, none => none
    | d :: _ =>
      if isBlank d || isBreak d then do
        let g ← quotedGap? c
        doubleQuoted fuel (g.text.reverse ++ read) g.after
      else doubleQuoted fuel (d :: read) c.advance

/-- A scalar in quotes, at its opening quote. -/
def quoted? (c : Cursor) : Option (String × Cursor) :=
  match c.rest with
  | '\'' :: _ => singleQuoted c.rest.length [] c.advance
  | '"' :: _ => doubleQuoted c.rest.length [] c.advance
  | _ => none

end FedTrack.Yaml
