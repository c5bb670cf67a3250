import FedTrack.Yaml.Cursor

namespace FedTrack.Yaml

/-! Scalars without quotes -/

def isFlowMark (c : Char) : Bool := [',', '[', ']', '{', '}'].contains c

/-- Whether a plain scalar may begin here. -/
def startsPlain (flow : Bool) : List Char → Bool
  | [] => false
  | c :: rest =>
    if c = '-' then !endsMark rest
    else if c = '?' || c = ':' then !flow && !endsMark rest
    else
      !isBlank c && !isBreak c && !isFlowMark c &&
        !(['#', '&', '*', '!', '|', '>', '\'', '"', '%', '@', '\x60'].contains c)

/-- A colon that ends a key. -/
def endsKey : List Char → Bool
  | ':' :: rest => endsMark rest
  | _ => false

/-- The word in front of a blank, a line end or a mark. Within brackets a colon may not stand
right before one of their marks. -/
def word? (flow : Bool) : List Char → Option (List Char)
  | [] => some []
  | c :: rest =>
    if isBlank c || isBreak c || endsKey (c :: rest) || (flow && isFlowMark c) then some []
    else if flow && c = ':' && rest.head?.any (fun d => isFlowMark d || d = '?') then none
    else (word? flow rest).map (c :: ·)

/-- The words of a plain scalar, with the gaps between them; `read` is reversed and `gap` has
not been taken over yet. Lines that go on have to reach the column `least`. -/
def plainFrom (flow : Bool) (least : Nat) : Nat → List Char → List Char → Cursor →
    Option (String × Cursor)
  | 0, _, _, _ => none
  | fuel + 1, read, gap, c =>
    let done : Option (String × Cursor) := some (String.ofList read.reverse, c)
    if atEnd c || c.rest.head? = some '#' then done
    else
      match word? flow c.rest with
      | none => none
      | some [] => done
      | some word =>
        let read := (gap ++ word).reverse ++ read
        match gap? least (c.advanceBy word.length) with
        | none => none
        | some g =>
          if g.isEmpty || (!flow && g.after.column < least) then
            some (String.ofList read.reverse, g.after)
          else plainFrom flow least fuel read g.text g.after

/-- A plain scalar and what follows it. -/
def plain? (flow : Bool) (least : Nat) (c : Cursor) : Option (String × Cursor) :=
  if startsPlain flow c.rest then plainFrom flow least (c.rest.length + 1) [] [] c else none

end FedTrack.Yaml
