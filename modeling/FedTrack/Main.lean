import FedTrack.Json.Printer
import FedTrack.Settings.Layers

namespace FedTrack

def addEntry (t : FileTree) (l : Location) : IO FileTree := do
  let path := (← IO.currentDir) / ("/" ++ "/".intercalate l)
  if ← path.isDir then return { t with directories := l :: t.directories }
  else if ← path.pathExists then
    return { t with files := (l, ← IO.FS.readFile path) :: t.files }
  else return t

/-- Adds all that a path passes on its way from a directory. -/
def addPath (t : FileTree) (base : Location) : List String → IO FileTree
  | [] => return t
  | name :: rest => do
    let l :=
      if name = "" || name = "." then base
      else if name = ".." then base.dropLast
      else base ++ [name]
    addPath (← addEntry t l) l rest

/-- The part of the disk that can hold settings. -/
def settingsTree (cwd user : Location) (o : Options) : IO FileTree := do
  let mut t : FileTree := ⟨[], [cwd]⟩
  t ← addEntry t (cwd ++ [Settings.fileName])
  t ← addEntry t (user ++ ["fed-controller", Settings.fileName])
  match o.config with
  | none => return t
  | some path =>
    match FileTree.namesOf path with
    | (true, names) => addPath t [] names
    | (false, names) =>
      for base in FileTree.outwards cwd do
        t ← addPath t base names
      return t

def variablesOf (names : List String) : IO (List (String × String)) :=
  names.filterMapM fun name => return (← IO.getEnv name).map fun text => (name, text)

def surroundings (arguments : List String) : IO Surroundings := do
  let locate (path : String) : Location := ((FileTree.namesOf path).2).filter (· ≠ "")
  let cwd := locate (← IO.currentDir).toString
  let home := locate ((← IO.getEnv "HOME").getD "/")
  let user := match ← IO.getEnv "XDG_CONFIG_HOME" with
    | some path => if path.startsWith "/" then locate path else home ++ [".config"]
    | none => home ++ [".config"]
  let options := match CommandLine.parse arguments with
    | some (.start o) => o
    | _ => .none
  return {
    arguments := arguments
    environment := ← variablesOf ["LOG_LEVEL", "Log_Level", "log_level"]
    files := ← settingsTree cwd user options
    workingDirectory := cwd
    configDirectory := user }

def faultText (f : ReadFault) : String :=
  let what := match f.kind with
    | .type => "value of another type"
    | .value => "value out of range"
    | .length => "list of another length"
    | .missingField field => "missing field '" ++ field ++ "'"
    | .unknownVariant variant => "unknown variant '" ++ variant ++ "'"
    | .text => "malformed text"
  if f.path.isEmpty then what else what ++ " at " ++ f.place

def showSettings (arguments : List String) : IO UInt32 := do
  match Settings.load (← surroundings arguments) with
  | .ok (.text s) => IO.print s; return 0
  | .ok (.settings s) => IO.println s.toJson.text; return 0
  | .error .usage => IO.eprint (CommandLine.helpText false); return 2
  | .error (.unreadable f) => IO.eprintln ("Error: " ++ faultText f); return 1
  | .error e => IO.eprintln ("Error: " ++ e.message); return 1

end FedTrack

def main (arguments : List String) : IO UInt32 := FedTrack.showSettings arguments
