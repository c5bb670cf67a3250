namespace FedTrack

/-- Names that lead from the root to a file or a directory. -/
abbrev Location := List String

inductive FileEntry
  | file (text : String)
  | directory
  deriving DecidableEq, Repr

/-- Files with their texts, and directories. All that leads to one of them is a directory. -/
structure FileTree where
  files : List (Location × String)
  directories : List Location
  deriving Repr

namespace FileTree

def isWithin (outer inner : Location) : Bool := outer.isPrefixOf inner

def entry? (t : FileTree) (l : Location) : Option FileEntry :=
  match t.files.find? (·.1 == l) with
  | some (_, text) => some (.file text)
  | none =>
    if l.isEmpty || t.files.any (isWithin l ·.1) || t.directories.any (isWithin l) then
      some .directory
    else none

def isDirectory (t : FileTree) (l : Location) : Bool := t.entry? l == some .directory

/-- Follows names from a location. Every name but the last has to be that of a directory, also
one in front of a dot or of nothing. -/
def follow (t : FileTree) : Location → List String → Option Location
  | l, [] => some l
  | l, name :: rest =>
    if t.isDirectory l then
      t.follow (if name = "" || name = "." then l
        else if name = ".." then l.dropLast
        else l ++ [name]) rest
    else none

/-- What stands before the first slash, and after each of them. -/
def segments : List Char → List Char × List (List Char)
  | [] => ([], [])
  | c :: rest =>
    let (first, others) := segments rest
    if c = '/' then ([], first :: others) else (c :: first, others)

/-- Names of a path, and whether it begins at the root. -/
def namesOf (path : String) : Bool × List String :=
  match segments path.toList with
  | ([], others) => (true, others.map String.ofList)
  | (first, others) => (false, (first :: others).map String.ofList)

def lookup? (t : FileTree) (base : Location) (path : String) : Option FileEntry :=
  match namesOf path with
  | (true, names) => (t.follow [] names).bind t.entry?
  | (false, names) => (t.follow base names).bind t.entry?

def text? (t : FileTree) (base : Location) (path : String) : Option String :=
  match t.lookup? base path with
  | some (.file text) => some text
  | _ => none

/-- A location and all that it lies in, from the inside out. -/
def outwards (l : Location) : List Location :=
  (List.range (l.length + 1)).map fun n => l.take (l.length - n)

/-- The text of the file that a path leads to from a directory or from the nearest one around
it. -/
def nearestText? (t : FileTree) (base : Location) (path : String) : Option String :=
  if (namesOf path).1 then t.text? [] path
  else (outwards base).findSome? fun l => t.text? l path

end FileTree

end FedTrack
