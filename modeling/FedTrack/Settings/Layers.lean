import FedTrack.Json.MergePatch
import FedTrack.Settings.CommandLine
import FedTrack.Settings.FileTree
import FedTrack.Settings.Reader
import FedTrack.Settings.Variable
import FedTrack.Yaml.Reader

namespace FedTrack

namespace Json

mutual

/-- A document over another one: maps are merged member by member, anything else replaces what
it lies on. -/
def overlay (below : Json) : Json → Json
  | .object fields => .object (overlayMembers below.membersOrNone fields)
  | above => above

def overlayMembers (below : Members) : List (String × Json) → Members
  | [] => below
  | (key, value) :: rest =>
    let laid := match Assoc.find? below key with
      | some old => overlay old value
      | none => value
    overlayMembers (Assoc.insert below key laid) rest

end

end Json

structure Surroundings where
  arguments : List String
  environment : List (String × String)
  files : FileTree
  workingDirectory : Location
  /-- Where the user's programs have their settings. -/
  configDirectory : Location

inductive LoadError
  /-- The command line cannot be understood. -/
  | usage
  | noFile (path : String)
  | unreadable (fault : ReadFault)
  deriving DecidableEq, Repr

def LoadError.message : LoadError → String
  | .noFile path => "config file '" ++ path ++ "' does not exist"
  | .usage | .unreadable _ => ""

/-- What loading comes to: the settings, or a text that was asked for instead. -/
inductive Loaded
  | settings (s : Settings)
  | text (s : String)

namespace Settings

def fileName : String := "config.yaml"

/-- The user's own settings of this program. -/
def userFile (w : Surroundings) : Location := w.configDirectory ++ ["fed-controller", fileName]

def textAt (t : FileTree) (l : Location) : Option String :=
  match t.entry? l with
  | some (.file text) => some text
  | _ => none

/-- The text of the settings file: the one that is named, else the first that exists of one in
the working directory and the user's own. A directory counts as a file that is not there. -/
def fileText (w : Surroundings) (o : Options) : Except LoadError (Option String) :=
  match o.config with
  | some path =>
    if (w.files.lookup? w.workingDirectory path).isSome then
      .ok (w.files.nearestText? w.workingDirectory path)
    else .error (.noFile path)
  | none =>
    match [w.workingDirectory ++ [fileName], userFile w].find? fun l => (w.files.entry? l).isSome with
    | some l => .ok (textAt w.files l)
    | none => .ok none

/-- The layer of a file: one document, which is a map. An empty file says nothing. -/
def fileLayer (text : String) : Except LoadError Json :=
  match Yaml.parse text with
  | some [] => .ok (.object [])
  | some [.object m] => .ok (.object m)
  | _ => .error (.unreadable (.here .text))

def variableName : String := "log_level"

/-- Names of variables are compared without regard to the case of letters. -/
def isLogLevel (name : String) : Bool := name.toList.map Char.toLower == variableName.toList

/-- The layer of the environment: the log level alone. -/
def environmentLayer (environment : List (String × String)) : Json :=
  environment.foldl (fun layer (name, text) =>
    if isLogLevel name then layer.overlay (.object [(variableName, Variable.ofText text)]) else layer)
    (.object [])

def optionLayer (o : Options) : Json :=
  match o.logLevel with
  | some level => .object [(variableName, .string level)]
  | none => .object []

def layers (w : Surroundings) (o : Options) (file : Option String) : Except LoadError (List Json) :=
  let others := [environmentLayer w.environment, optionLayer o]
  match file with
  | none => .ok (standard.toJson :: others)
  | some text =>
    match fileLayer text with
    | .error e => .error e
    | .ok layer => .ok (standard.toJson :: layer :: others)

def ofLayers (l : List Json) : Except LoadError Settings :=
  match Reader.settings false (l.foldl Json.overlay (.object [])) with
  | .ok s => .ok s
  | .error f => .error (.unreadable f)

def loadWith (w : Surroundings) (o : Options) : Except LoadError Settings := do
  let file ← fileText w o
  ofLayers (← layers w o file)

def load (w : Surroundings) : Except LoadError Loaded :=
  match CommandLine.parse w.arguments with
  | none => .error .usage
  | some (.help detailed) => .ok (.text (CommandLine.helpText detailed))
  | some .version => .ok (.text CommandLine.versionText)
  | some (.start o) =>
    match loadWith w o with
    | .ok s => .ok (.settings s)
    | .error e => .error e

end Settings

end FedTrack
