import FedTrack.Proofs.Settings.File
import FedTrack.Proofs.Settings.Overlay
import FedTrack.Proofs.Settings.Record

namespace FedTrack

namespace Settings

variable {o : Options} {environment : List (String × String)} {base m : Json.Members}
  {file said : Json} {s : Settings}

def readLevel (j : Json) : Except ReadFault (Option String) := Reader.optional Reader.text j

/-- What lies below a level does not matter to a reader of it: no map is a level. -/
theorem readLevel_overlay (below above : Json) :
    readLevel (below.overlay above) = readLevel above := by
  rcases Json.overlay_eq below above with h | ⟨fields, rfl, h⟩
  · rw [h]
  · rw [h]
    rfl

/-- A document with at most the log level. -/
def levelDocument : Option Json → Json
  | none => .object []
  | some level => .object [(variableName, level)]

/-- The level that the environment gives. Of several variables of this name the last one counts. -/
def heardLevel (environment : List (String × String)) : Option Json :=
  ((environment.filter fun e => isLogLevel e.1).getLast?).map fun e => Variable.ofText e.2

/-- What is said about the log level: by an option, else by the environment, else by the file. -/
def saidLevel (o : Options) (environment : List (String × String)) (file : Json) : Json :=
  (o.logLevel.map Json.string).getD
    ((heardLevel environment).getD ((file.member? variableName).getD .null))

theorem optionLayer_eq (o : Options) :
    optionLayer o = levelDocument (o.logLevel.map Json.string) := by
  rw [optionLayer]
  cases o.logLevel <;> rfl

theorem environmentLayer_eq (environment : List (String × String)) : ∃ level,
    environmentLayer environment = levelDocument level ∧
    ∀ said, readLevel (level.getD said) = readLevel ((heardLevel environment).getD said) := by
  induction environment using List.reverseRecOn with
  | nil => exact ⟨none, rfl, fun _ => rfl⟩
  | append_singleton rest e ih =>
    obtain ⟨level, hlayer, hlevel⟩ := ih
    have hstep : environmentLayer (rest ++ [e]) =
        if isLogLevel e.1 then
          (levelDocument level).overlay (levelDocument (some (Variable.ofText e.2)))
        else levelDocument level := by
      rw [← hlayer, environmentLayer, environmentLayer, List.foldl_append, List.foldl_cons,
        List.foldl_nil]
      rfl
    rw [hstep, heardLevel, List.filter_append]
    by_cases he : isLogLevel e.1 = true
    · rw [if_pos he]
      cases level with
      | none =>
        refine ⟨some (Variable.ofText e.2), ?_, by simp [he]⟩
        simp [levelDocument, Json.overlay_object, Json.overlayMembers, Assoc.find?, Assoc.insert]
      | some old =>
        refine ⟨some (old.overlay (Variable.ofText e.2)), ?_, by simp [he, readLevel_overlay]⟩
        simp [levelDocument, Json.overlay_object, Json.overlayMembers, Assoc.find?, Assoc.insert]
    · rw [if_neg he]
      exact ⟨level, rfl, by simpa [he, heardLevel] using hlevel⟩

/-- The members of a document in which the log level reads as what is said, and all others are
those of `base`. -/
structure Levelled (base m : Json.Members) (said : Json) : Prop where
  sorted : Assoc.Sorted m
  others : Assoc.erase m variableName = Assoc.erase base variableName
  level : ∃ v, Assoc.find? m variableName = some v ∧ readLevel v = readLevel said

/-- A layer that can say something about the level only changes the level only. -/
theorem Levelled.overlay (h : Levelled base m said) (level : Option Json) :
    ∃ m', (Json.object m).overlay (levelDocument level) = .object m' ∧
      Levelled base m' (level.getD said) := by
  cases level with
  | none => exact ⟨m, Json.overlay_nothing m, h⟩
  | some new =>
    obtain ⟨old, hold, -⟩ := h.level
    refine ⟨Assoc.insert m variableName (old.overlay new), ?_, ?_, ?_, ?_⟩
    · rw [levelDocument, Json.overlay_object, Json.overlayMembers, hold, Json.overlayMembers]
    · exact Assoc.sorted_insert h.sorted _ _
    · rw [Assoc.erase_insert, h.others]
    · exact ⟨_, by rw [Assoc.find?_insert, if_pos rfl], readLevel_overlay old new⟩

theorem Levelled.congr (h : Levelled base m said) {said' : Json}
    (hsaid : readLevel said = readLevel said') : Levelled base m said' :=
  ⟨h.sorted, h.others, by simpa only [hsaid] using h.level⟩

theorem Levelled.settings (h : Levelled base m said) :
    Reader.settings false (.object m) = .ok s ↔ ∃ level rest, readLevel said = .ok level ∧
      Reader.settings false ((Json.object base).dropMember variableName) = .ok rest ∧
      s = { rest with logLevel := level } := by
  obtain ⟨v, hv, hread⟩ := h.level
  rw [settings_object_eq_ok h.sorted hv, h.others, ← hread]
  rfl

theorem sorted_toJson (s : Settings) : ∃ m, s.toJson = .object m ∧ Assoc.Sorted m ∧
    Assoc.find? m variableName = some (textOrNull s.logLevel) := by
  have hnames : ["clusters", "controller", "kubernetes", "log_level", "types"].Pairwise
      fun a b => Key.lt a b = true := by decide +kernel
  exact ⟨_, rfl, by simpa [Assoc.Sorted] using hnames, rfl⟩

theorem sorted_of_fileLayer {text : String} (h : fileLayer text = .ok file) :
    ∃ fields, file = .object fields ∧ Assoc.Sorted fields := by
  unfold fileLayer at h
  split at h
  · cases h
    exact ⟨[], rfl, trivial⟩
  · rename_i m hm
    cases h
    exact ⟨m, rfl, Yaml.sorted_of_mem_parse hm List.mem_cons_self⟩
  · cases h

theorem levelled_file {fields : Json.Members} (hs : Assoc.Sorted fields) :
    ∃ base, standard.toJson.overlay (.object fields) = .object base ∧
      Levelled base base (((Json.object fields).member? variableName).getD .null) := by
  obtain ⟨m, hm, hsorted, hlevel⟩ := sorted_toJson standard
  refine ⟨Json.overlayMembers m fields, by rw [hm, Json.overlay_object], ?_, rfl, ?_⟩
  · exact Json.sorted_overlayMembers fields hsorted
  · rw [Json.find?_overlayMembers hs, hlevel, Json.member?]
    cases Assoc.find? fields variableName with
    | none => exact ⟨_, rfl, rfl⟩
    | some v => exact ⟨_, rfl, readLevel_overlay _ v⟩

/-- The layer of the settings file. A text has to be one map, and without a text nothing is said. -/
inductive FileLayer (w : Surroundings) (named : Option String) : Json → Prop
  | written {text : String} {file : Json} (found : SettingsFile w named (some text))
      (reads : fileLayer text = .ok file) : FileLayer w named file
  | silent (found : SettingsFile w named none) : FileLayer w named (.object [])

/-- Settings with the log level that is said. All else comes from the defaults and the file, in
which the level itself need not be readable. -/
structure MadeOf (o : Options) (environment : List (String × String)) (file : Json)
    (s : Settings) : Prop where
  level : readLevel (saidLevel o environment file) = .ok s.logLevel
  others : ∃ rest,
    Reader.settings false ((standard.toJson.overlay file).dropMember variableName) = .ok rest ∧
    s = { rest with logLevel := s.logLevel }

theorem Levelled.madeOf (h : Levelled base m (saidLevel o environment file))
    (hbase : standard.toJson.overlay file = .object base) :
    Reader.settings false (.object m) = .ok s ↔ MadeOf o environment file s := by
  rw [h.settings, ← hbase]
  constructor
  · rintro ⟨level, rest, hlevel, hrest, rfl⟩
    exact ⟨hlevel, rest, hrest, rfl⟩
  · rintro ⟨hlevel, rest, hrest, hs⟩
    exact ⟨s.logLevel, rest, hlevel, hrest, hs⟩

theorem ofLayers_eq_ok {l : List Json} :
    ofLayers l = .ok s ↔ Reader.settings false (l.foldl Json.overlay (.object [])) = .ok s := by
  rw [ofLayers]
  cases Reader.settings false (l.foldl Json.overlay (.object [])) <;> simp

theorem foldl_standard (rest : List Json) :
    (standard.toJson :: rest).foldl Json.overlay (.object []) =
      rest.foldl Json.overlay standard.toJson := by
  obtain ⟨m, hm, hsorted, -⟩ := sorted_toJson standard
  rw [List.foldl_cons, hm, Json.overlay_empty hsorted]

theorem ofLayers_file {fields : Json.Members} (hs : Assoc.Sorted fields) :
    ofLayers [standard.toJson, .object fields, environmentLayer environment, optionLayer o] =
      .ok s ↔ MadeOf o environment (.object fields) s := by
  obtain ⟨base, hbase, hfile⟩ := levelled_file hs
  obtain ⟨heard, hlayer, hheard⟩ := environmentLayer_eq environment
  obtain ⟨m, hm, henvironment⟩ := hfile.overlay heard
  obtain ⟨m', hm', hoptions⟩ :=
    (henvironment.congr (hheard _)).overlay (o.logLevel.map Json.string)
  rw [ofLayers_eq_ok, foldl_standard, List.foldl_cons, List.foldl_cons, List.foldl_cons,
    List.foldl_nil, hbase, hlayer, hm, optionLayer_eq, hm']
  exact hoptions.madeOf hbase

theorem ofLayers_empty (rest : List Json) :
    ofLayers (standard.toJson :: .object [] :: rest) = ofLayers (standard.toJson :: rest) := by
  obtain ⟨m, hm, -⟩ := sorted_toJson standard
  rw [ofLayers, ofLayers, foldl_standard, foldl_standard, List.foldl_cons, hm, Json.overlay_nothing]

theorem loadWith_eq_ok {w : Surroundings} : loadWith w o = .ok s ↔
    ∃ file, FileLayer w o.config file ∧ MadeOf o w.environment file s := by
  have hbind : loadWith w o = .ok s ↔ ∃ text l, SettingsFile w o.config text ∧
      layers w o text = .ok l ∧ ofLayers l = .ok s := by
    rw [loadWith]
    constructor
    · intro h
      cases ht : fileText w o with
      | error e => simp [ht, bind, Except.bind] at h
      | ok text =>
        cases hl : layers w o text with
        | error e => simp [ht, hl, bind, Except.bind] at h
        | ok l =>
          refine ⟨text, l, fileText_eq_ok.mp ht, hl, ?_⟩
          simpa [ht, hl, bind, Except.bind] using h
    · rintro ⟨text, l, ht, hl, hs⟩
      simpa [fileText_eq_ok.mpr ht, hl, bind, Except.bind] using hs
  have hempty : Assoc.Sorted ([] : Json.Members) := trivial
  rw [hbind]
  constructor
  · rintro ⟨text, l, htext, hl, hs⟩
    cases text with
    | none =>
      cases hl
      rw [← ofLayers_empty] at hs
      exact ⟨_, .silent htext, (ofLayers_file hempty).mp hs⟩
    | some text =>
      simp only [layers] at hl
      cases hfile : fileLayer text with
      | error e => simp [hfile] at hl
      | ok file =>
        rw [hfile] at hl
        cases hl
        obtain ⟨fields, rfl, hsorted⟩ := sorted_of_fileLayer hfile
        exact ⟨_, .written htext hfile, (ofLayers_file hsorted).mp hs⟩
  · rintro ⟨file, hfile, hmade⟩
    cases hfile with
    | @written text _ found reads =>
      obtain ⟨fields, rfl, hsorted⟩ := sorted_of_fileLayer reads
      refine ⟨some text, _, found, ?_, (ofLayers_file hsorted).mpr hmade⟩
      simp only [layers, reads]
    | silent found =>
      refine ⟨none, _, found, rfl, ?_⟩
      rw [← ofLayers_empty]
      exact (ofLayers_file hempty).mpr hmade

theorem load_eq_settings {w : Surroundings} : load w = .ok (.settings s) ↔
    ∃ o, CommandLine.parse w.arguments = some (.start o) ∧ loadWith w o = .ok s := by
  rw [load]
  cases CommandLine.parse w.arguments with
  | none => simp
  | some c =>
    cases c with
    | help detailed => simp
    | version => simp
    | start o => cases hs : loadWith w o <;> simp [hs]

theorem load_eq_ok {w : Surroundings} : load w = .ok (.settings s) ↔
    ∃ o file, CommandLine.parse w.arguments = some (.start o) ∧ FileLayer w o.config file ∧
      MadeOf o w.environment file s := by
  simp only [load_eq_settings, loadWith_eq_ok, exists_and_left]

theorem MadeOf.unique {o' : Options} {environment' : List (String × String)} {s' : Settings}
    (h : MadeOf o environment file s) (h' : MadeOf o' environment' file s') :
    s' = { s with logLevel := s'.logLevel } := by
  obtain ⟨rest, hrest, hs⟩ := h.others
  obtain ⟨rest', hrest', hs'⟩ := h'.others
  rw [hrest] at hrest'
  cases hrest'
  rw [hs', hs]

theorem FileLayer.sorted {w : Surroundings} {named : Option String} (h : FileLayer w named file) :
    ∃ fields, file = .object fields ∧ Assoc.Sorted fields := by
  cases h with
  | written _ reads => exact sorted_of_fileLayer reads
  | silent => exact ⟨[], rfl, trivial⟩

/-- The defaults with the file alone are what an empty environment and no options make of them. -/
theorem FileLayer.alone {w : Surroundings} {named : Option String} (h : FileLayer w named file)
    (hs : ofLayers [standard.toJson, file] = .ok s) : MadeOf .none [] file s := by
  obtain ⟨fields, rfl, hsorted⟩ := h.sorted
  obtain ⟨base, hbase, -⟩ := levelled_file hsorted
  have hsame : ofLayers [standard.toJson, .object fields, environmentLayer [], optionLayer .none] =
      ofLayers [standard.toJson, .object fields] := by
    rw [ofLayers, ofLayers, foldl_standard, foldl_standard]
    simp only [List.foldl_cons, List.foldl_nil, hbase, environmentLayer, optionLayer, Options.none,
      Json.overlay_nothing]
  exact (ofLayers_file hsorted).mp (hsame.trans hs)

theorem fileLayer_iff {w : Surroundings} {named : Option String} : FileLayer w named file ↔
    ∃ text, fileText w ⟨named, none⟩ = .ok text ∧
      match text with
      | some text => fileLayer text = .ok file
      | none => file = .object [] := by
  simp only [fileText_eq_ok]
  constructor
  · intro h
    cases h with
    | written found reads => exact ⟨_, found, reads⟩
    | silent found => exact ⟨_, found, rfl⟩
  · rintro ⟨text, found, hfile⟩
    cases text with
    | some text => exact .written found hfile
    | none =>
      subst hfile
      exact .silent found

theorem FileLayer.unique {w : Surroundings} {named : Option String} {file' : Json}
    (h : FileLayer w named file) (h' : FileLayer w named file') : file = file' := by
  obtain ⟨text, htext, hfile⟩ := fileLayer_iff.mp h
  obtain ⟨text', htext', hfile'⟩ := fileLayer_iff.mp h'
  rw [htext] at htext'
  cases htext'
  cases text with
  | none => rw [hfile, hfile']
  | some text => exact Except.ok.inj (hfile.symm.trans hfile')

/-- The file does not depend on the environment, nor on what else is on the command line. -/
theorem FileLayer.elsewhere {w : Surroundings} {named : Option String} {arguments : List String}
    (h : FileLayer { w with arguments := arguments, environment := environment } named file) :
    FileLayer w named file := by
  obtain ⟨text, htext, hfile⟩ := fileLayer_iff.mp h
  exact fileLayer_iff.mpr ⟨text, htext, hfile⟩

/-- A run has settings exactly if its layers make them: the log level is the one that is said, and
all else is what the defaults and the settings file give. So two runs that differ in the
environment and in the option for the level only agree in all else. The settings file is the one
that is named unless what is named is a directory, and some directory around has a file of that
name. -/
theorem settings_by_layers (w : Surroundings) :
    (∀ s : Settings, load w = .ok (.settings s) ↔
      ∃ o file, CommandLine.parse w.arguments = some (.start o) ∧ FileLayer w o.config file ∧
        MadeOf o w.environment file s) ∧
    (∀ (o : Options) (file : Json) (s alone : Settings),
      FileLayer w o.config file → MadeOf o w.environment file s →
      ofLayers [standard.toJson, file] = .ok alone →
      s = { alone with logLevel := s.logLevel }) ∧
    (∀ (arguments : List String) (environment : List (String × String))
      (o o' : Options) (s s' : Settings),
      CommandLine.parse w.arguments = some (.start o) →
      CommandLine.parse arguments = some (.start o') → o'.config = o.config →
      load w = .ok (.settings s) →
      load { w with arguments := arguments, environment := environment } = .ok (.settings s') →
      s' = { s with logLevel := s'.logLevel }) ∧
    ∀ path text, SettingsFile w (some path) text →
      (text = w.files.text? w.workingDirectory path ↔
        (w.files.lookup? w.workingDirectory path = some .directory → text = none)) := by
  refine ⟨fun s => load_eq_ok, ?_, ?_, fun path text h => h.text?_iff⟩
  · intro o file s alone hfile hs halone
    exact (hfile.alone halone).unique hs
  · intro arguments environment o o' s s' ho ho' hconfig hs hs'
    obtain ⟨p, file, hp, hfile, hmade⟩ := load_eq_ok.mp hs
    obtain ⟨p', file', hp', hfile', hmade'⟩ := load_eq_ok.mp hs'
    have hpo : p = o := by simpa [ho] using hp.symm
    have hpo' : p' = o' := by simpa [ho'] using hp'.symm
    subst hpo hpo'
    rw [hconfig] at hfile'
    have hsame : file = file' := hfile.unique hfile'.elsewhere
    subst hsame
    exact hmade.unique hmade'

namespace Sample

/-- A level and one more setting. -/
def atHomeText : String := "log_level: FILE\ncontroller:\n  minimize_latency: true\n"

/-- Settings in the working directory that give a level, as does the environment. -/
def atHome : Surroundings where
  arguments := []
  environment := [("Log_Level", "ENV")]
  files := ⟨[(["cwd", "config.yaml"], atHomeText)], []⟩
  workingDirectory := ["cwd"]
  configDirectory := ["home", ".config"]

def fast (level : String) : Settings :=
  { standard with
    logLevel := some level
    controller := { ControllerSettings.standard with minimizeLatency := true } }

def layer : Json :=
  .object [("controller", .object [("minimize_latency", .bool true)]),
    ("log_level", .string "FILE")]

/-- Another file beside the settings. -/
def beside : Surroundings :=
  { atHome with files := ⟨(["cwd", "f"], "log_level: F\n") :: atHome.files.files, []⟩ }

theorem layer_atHome : FileLayer atHome none layer := by
  have hparse : Yaml.parse atHomeText = some [layer] := by decide +kernel
  have hfound : SettingsFile atHome none (some atHomeText) := .beside (e := .file atHomeText) rfl
  refine .written hfound ?_
  rw [fileLayer, hparse]
  rfl

end Sample

/-- With the level of the environment, and with that of an option and no environment. Of a file that
is named the text is read. -/
theorem settings_by_layers_sample :
    load Sample.atHome = .ok (.settings (Sample.fast "ENV")) ∧
    load { Sample.atHome with arguments := ["-l", "CLI"], environment := [] } =
      .ok (.settings (Sample.fast "CLI")) ∧
    ofLayers [standard.toJson, Sample.layer] = .ok (Sample.fast "FILE") ∧
    Sample.fast "ENV" = { Sample.fast "FILE" with logLevel := some "ENV" } ∧
    Sample.fast "CLI" = { Sample.fast "ENV" with logLevel := some "CLI" } ∧
    SettingsFile Sample.beside (some "f") (some "log_level: F\n") ∧
    some "log_level: F\n" = Sample.beside.files.text? Sample.beside.workingDirectory "f" := by
  have hempty : CommandLine.parse [] = some (.start .none) := rfl
  have hoption : CommandLine.parse ["-l", "CLI"] = some (.start ⟨none, some "CLI"⟩) := by
    decide +kernel
  have hmade : MadeOf .none [("Log_Level", "ENV")] Sample.layer (Sample.fast "ENV") :=
    ⟨rfl, _, rfl, rfl⟩
  have hlookup : Sample.beside.files.lookup? Sample.beside.workingDirectory "f" =
      some (.file "log_level: F\n") := by decide +kernel
  have hnamed : SettingsFile Sample.beside (some "f") (some "log_level: F\n") := .named hlookup
  have hread := (settings_by_layers Sample.beside).2.2.2 _ _ hnamed
  obtain ⟨hmakes, hrest, hagree, -⟩ := settings_by_layers Sample.atHome
  have hload := (hmakes (Sample.fast "ENV")).mpr ⟨_, _, hempty, Sample.layer_atHome, hmade⟩
  have htold := ((settings_by_layers
    { Sample.atHome with arguments := ["-l", "CLI"], environment := [] }).1 (Sample.fast "CLI")).mpr
    ⟨_, _, hoption, Sample.layer_atHome.elsewhere, rfl, _, rfl, rfl⟩
  have halone : ofLayers [standard.toJson, Sample.layer] = .ok (Sample.fast "FILE") := rfl
  refine ⟨hload, htold, halone, hrest .none _ _ _ Sample.layer_atHome hmade halone,
    hagree _ _ _ _ _ _ hempty hoption rfl hload htold, hnamed, hread.mpr ?_⟩
  intro hdirectory
  cases hlookup.symm.trans hdirectory

namespace Sample

/-- A directory is named, and in a directory around there is a file of that name. -/
def astray : Surroundings where
  arguments := ["-c", "sub"]
  environment := []
  files := ⟨[(["cwd", "sub", "note.txt"], "x"), (["sub"], "log_level: PARENT\n")], []⟩
  workingDirectory := ["cwd"]
  configDirectory := ["home", ".config"]

end Sample

/-- What is named is no file, nothing but the file around says anything about the log level, and
yet there is one. -/
theorem settings_from_around :
    CommandLine.parse Sample.astray.arguments = some (.start ⟨some "sub", none⟩) ∧
    Sample.astray.environment = [] ∧
    Sample.astray.files.lookup? Sample.astray.workingDirectory "sub" = some .directory ∧
    Sample.astray.files.entry? (Sample.astray.workingDirectory ++ [fileName]) = none ∧
    Sample.astray.files.entry? (userFile Sample.astray) = none ∧
    ∃ s, load Sample.astray = .ok (.settings s) ∧ s.logLevel = some "PARENT" := by
  have hparse : CommandLine.parse Sample.astray.arguments = some (.start ⟨some "sub", none⟩) := by
    decide +kernel
  have hlookup : Sample.astray.files.lookup? Sample.astray.workingDirectory "sub" =
      some .directory := by decide +kernel
  have hnearest : Sample.astray.files.nearestText? Sample.astray.workingDirectory "sub" =
      some "log_level: PARENT\n" := by decide +kernel
  have hfile : FileLayer Sample.astray (some "sub")
      (.object [("log_level", .string "PARENT")]) := by
    have hyaml : Yaml.parse "log_level: PARENT\n" =
        some [.object [("log_level", .string "PARENT")]] := by decide +kernel
    refine .written (.around hlookup (hnearest ▸ FileTree.nearest_nearestText? _ _ _)) ?_
    rw [fileLayer, hyaml]
  have hmade : MadeOf ⟨some "sub", none⟩ [] (.object [("log_level", .string "PARENT")])
      { standard with logLevel := some "PARENT" } := ⟨rfl, _, rfl, rfl⟩
  exact ⟨hparse, rfl, hlookup, rfl, rfl, _, load_eq_ok.mpr ⟨_, _, hparse, hfile, hmade⟩, rfl⟩

end Settings

end FedTrack
