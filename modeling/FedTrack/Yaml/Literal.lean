import FedTrack.Yaml.Cursor

namespace FedTrack.Yaml

/-! Scalars of whole lines, after `|` as they are and after `>` folded -/

/-- What becomes of the line ends after the last line. -/
inductive Chomp
  | strip
  | clip
  | keep
  deriving DecidableEq

structure LiteralHeader where
  folded : Bool
  chomp : Chomp
  /-- How far the lines are indented, if it is said. -/
  indent : Option Nat

def chomp? : Char → Option Chomp
  | '-' => some .strip
  | '+' => some .keep
  | _ => none

def indentation? (c : Char) : Option Nat :=
  if '1' ≤ c && c ≤ '9' then some (c.toNat - 48) else none

/-- The marks after the first one: a sign and a digit, in any order. -/
def header? (folded : Bool) (marks : List Char) : Option LiteralHeader :=
  match marks with
  | [] => some ⟨folded, .clip, none⟩
  | [c] =>
    match chomp? c, indentation? c with
    | some chomp, _ => some ⟨folded, chomp, none⟩
    | none, some n => some ⟨folded, .clip, some n⟩
    | none, none => none
  | [c, d] =>
    match chomp? c, indentation? d, indentation? c, chomp? d with
    | some chomp, some n, _, _ => some ⟨folded, chomp, some n⟩
    | _, _, some n, some chomp => some ⟨folded, chomp, some n⟩
    | _, _, _, _ => none
  | _ => none

/-- Line ends up to the next line that is not empty, and the width of the widest of these
lines. Spaces in front of the column `indent` are passed, or all of them as long as it is not
known; a tab may not stand there. -/
def emptyLines (indent : Option Nat) (breaks width line column : Nat) :
    List Char → Option (Nat × Nat × Cursor)
  | [] => some (breaks, max width column, ⟨line, column, []⟩)
  | d :: rest =>
    if isBreak d then emptyLines indent (breaks + 1) (max width column) (line + 1) 0 rest
    else if indent.all (column < ·) && d = ' ' then
      emptyLines indent breaks width line (column + 1) rest
    else if indent.all (column < ·) && d = '\t' then none
    else some (breaks, max width column, ⟨line, column, d :: rest⟩)

/-- The state between two lines: the text so far in reverse, whether the last line ended with a
line end and began with a blank, and the number of empty lines after it. -/
structure LiteralState where
  read : List Char
  ended : Bool
  blank : Bool
  empty : Nat

def lineBreaks (n : Nat) : List Char := List.replicate n '\n'

/-- The line end in front of a line; a single one between lines that do not begin with a blank
is folded. -/
def LiteralState.joint (s : LiteralState) (folded blank : Bool) : List Char :=
  if folded && s.ended && !s.blank && !blank then
    if s.empty = 0 then [' '] else lineBreaks s.empty
  else lineBreaks ((if s.ended then 1 else 0) + s.empty)

/-- The lines that are indented by `indent`. -/
def literalLines (folded : Bool) (indent : Nat) : Nat → LiteralState → Cursor →
    Option (LiteralState × Cursor)
  | 0, _, _ => none
  | fuel + 1, s, c =>
    if c.column = indent && !c.rest.isEmpty then do
      let line := c.rest.takeWhile (!isBreak ·)
      let blank := line.head?.any isBlank
      let after := c.advanceBy line.length
      let ended := !after.rest.isEmpty
      let next := after.advance
      let (empty, _, next) ← emptyLines (some indent) 0 0 next.line next.column next.rest
      literalLines folded indent fuel
        ⟨line.reverse ++ s.joint folded blank ++ s.read, ended, blank, empty⟩ next
    else some (s, c)

def LiteralState.close (s : LiteralState) (chomp : Chomp) : String :=
  let tail := match chomp with
    | .strip => []
    | .clip => if s.ended then lineBreaks 1 else []
    | .keep => lineBreaks ((if s.ended then 1 else 0) + s.empty)
  String.ofList (tail ++ s.read).reverse

/-- A scalar of whole lines, at its mark. Its lines reach the column `least` or, if it is said
how far they are indented, as many columns beyond that of the parent. -/
def literal? (least : Nat) (c : Cursor) : Option (String × Cursor) :=
  match c.rest with
  | [] => none
  | mark :: rest => do
    let marks := rest.takeWhile fun d => !isBlank d && !isBreak d && d ≠ '#'
    let header ← header? (mark = '>') marks
    let after := skipBlanks (c.advanceBy (1 + marks.length))
    let after := if after.rest.head? = some '#' then skipLine after else after
    if !(after.rest.isEmpty || after.rest.head?.any isBreak) then none
    else
      let start := after.advance
      let said := header.indent.map (least - 1 + ·)
      let (empty, width, first) ← emptyLines said 0 0 start.line start.column start.rest
      let indent := said.getD (max width (max least 1))
      let (s, next) ← literalLines header.folded indent (first.rest.length + 1) ⟨[], false, false, empty⟩ first
      some (s.close header.chomp, next)

end FedTrack.Yaml
