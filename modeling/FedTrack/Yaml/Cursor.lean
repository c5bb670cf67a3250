namespace FedTrack.Yaml

/-- The rest of a text, with line and column of its first character. -/
structure Cursor where
  line : Nat
  column : Nat
  rest : List Char
  deriving DecidableEq, Repr

namespace Cursor

/-- Passes one character. -/
def advance (c : Cursor) : Cursor :=
  match c.rest with
  | [] => c
  | '\n' :: rest => ⟨c.line + 1, 0, rest⟩
  | _ :: rest => ⟨c.line, c.column + 1, rest⟩

def advanceBy : Nat → Cursor → Cursor
  | 0, c => c
  | n + 1, c => advanceBy n c.advance

end Cursor

def isBlank (c : Char) : Bool := c = ' ' || c = '\t'

def isBreak (c : Char) : Bool := c = '\n'

/-- What may follow a mark such as a dash or a colon. -/
def endsMark : List Char → Bool
  | [] => true
  | c :: _ => isBlank c || isBreak c

/-- Passes blanks of the line. -/
def skipBlanks (c : Cursor) : Cursor := c.advanceBy (c.rest.takeWhile isBlank).length

/-- Passes the rest of the line up to its end. -/
def skipLine (c : Cursor) : Cursor := c.advanceBy (c.rest.takeWhile (!isBreak ·)).length

/-- Passes blanks, comments and line ends. Tabs do not indent: outside of brackets they are
blanks only on the first line, and there only if `tabs` says so. -/
def skipSpaceFrom (flow : Bool) (tabs comment : Bool) (line column : Nat) : List Char → Cursor
  | [] => ⟨line, column, []⟩
  | d :: rest =>
    if isBreak d then skipSpaceFrom flow flow false (line + 1) 0 rest
    else if comment || d = ' ' || (d = '\t' && tabs) || (d = '\ufeff' && column = 0) then
      skipSpaceFrom flow tabs comment line (column + 1) rest
    else if d = '#' then skipSpaceFrom flow tabs true line (column + 1) rest
    else ⟨line, column, d :: rest⟩

/-- The next token outside of brackets. -/
def nextToken (tabs : Bool) (c : Cursor) : Cursor :=
  skipSpaceFrom false tabs false c.line c.column c.rest

/-- The next token within brackets. -/
def nextFlowToken (c : Cursor) : Cursor := skipSpaceFrom true true false c.line c.column c.rest

/-- A line that begins with three dashes or dots. -/
def isMark (mark : Char) (c : Cursor) : Bool :=
  match c.column, c.rest with
  | 0, a :: b :: d :: rest => a = mark && b = mark && d = mark && endsMark rest
  | _, _ => false

/-- The document ends here. -/
def atEnd (c : Cursor) : Bool := c.rest.isEmpty || isMark '-' c || isMark '.' c

/-- What stands between two words of a scalar: the blanks in front of the first line end, and
the number of line ends. -/
structure Gap where
  blanks : List Char
  breaks : Nat
  after : Cursor

/-- Passes blanks and line ends; `none` if a tab stands in front of the column `least`. -/
def gapFrom (least : Nat) (blanks : List Char) (breaks line column : Nat) : List Char → Option Gap
  | [] => some ⟨blanks.reverse, breaks, ⟨line, column, []⟩⟩
  | d :: rest =>
    if isBreak d then gapFrom least blanks (breaks + 1) (line + 1) 0 rest
    else if isBlank d then
      if breaks = 0 then gapFrom least (d :: blanks) 0 line (column + 1) rest
      else if d = '\t' && column < least then none
      else gapFrom least blanks breaks line (column + 1) rest
    else some ⟨blanks.reverse, breaks, ⟨line, column, d :: rest⟩⟩

def gap? (least : Nat) (c : Cursor) : Option Gap := gapFrom least [] 0 c.line c.column c.rest

namespace Gap

def isEmpty (g : Gap) : Bool := g.blanks.isEmpty && g.breaks = 0

/-- One line end is folded into a space, each further one stays. -/
def text (g : Gap) : List Char :=
  match g.breaks with
  | 0 => g.blanks
  | 1 => [' ']
  | n + 2 => List.replicate (n + 1) '\n'

end Gap

end FedTrack.Yaml
