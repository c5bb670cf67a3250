import FedTrack.Json.Value
import FedTrack.Json.Shortest
import FedTrack.Text.Hex

namespace FedTrack.Json

/-- Quotes, backslashes and controls below the space are escaped, all else is written raw. -/
def escape (c : Char) : List Char :=
  if c = '"' then ['\\', '"']
  else if c = '\\' then ['\\', '\\']
  else if c = '\n' then ['\\', 'n']
  else if c = '\r' then ['\\', 'r']
  else if c = '\t' then ['\\', 't']
  else if c = '\x08' then ['\\', 'b']
  else if c = '\x0c' then ['\\', 'f']
  else if c.toNat < 32 then
    ['\\', 'u', '0', '0', hexDigit (c.toNat / 16), hexDigit (c.toNat % 16)]
  else [c]

def quoted (s : String) : List Char := '"' :: (s.toList.flatMap escape ++ ['"'])

def wholeText (i : Int) : List Char :=
  if i < 0 then '-' :: Nat.toDigits 10 i.natAbs else Nat.toDigits 10 i.natAbs

def numberText : Number → List Char
  | .whole i => wholeText i
  | .double d => Shortest.text d

mutual

def chars : Json → List Char
  | .null => ['n', 'u', 'l', 'l']
  | .bool true => ['t', 'r', 'u', 'e']
  | .bool false => ['f', 'a', 'l', 's', 'e']
  | .number n => numberText n
  | .string s => quoted s
  | .array items => '[' :: itemChars items
  | .object members => '{' :: memberChars members

def itemChars : List Json → List Char
  | [] => [']']
  | [j] => chars j ++ [']']
  | j :: rest => chars j ++ ',' :: itemChars rest

def memberChars : List (String × Json) → List Char
  | [] => ['}']
  | [(k, j)] => quoted k ++ ':' :: (chars j ++ ['}'])
  | (k, j) :: rest => quoted k ++ ':' :: (chars j ++ ',' :: memberChars rest)

end

def text (j : Json) : String := String.ofList (chars j)

end FedTrack.Json
