import SeriesQuery.CommandLine.Help
import SeriesQuery.CommandLine.Report
import SeriesQuery.DataSet
import SeriesQuery.Engine.Answer
import SeriesQuery.Evaluation.Shuffle
import SeriesQuery.Json.Reader

/-!
# The program

Three commands: `run` answers a request over a data set, `parse` prints the tree of an
expression, `check-config` checks the settings. All of them read the settings first, from the
file named, else from `kuba-expr.toml` where there is one, under the variables of the
environment.

Carrying out a command line is a function of its words, the files and the environment.
-/

namespace SeriesQuery.CommandLine

/-! ## The command line -/

/-- The option that names the file of settings. -/
def configOption : OptionForm :=
  ⟨"config", some 'c', true, false, "Path to configuration file"⟩

/-- The option that names the file of the data set. -/
def datasetOption : OptionForm :=
  ⟨"dataset", some 'd', true, true, "Dataset JSON: metadata catalog and raw samples"⟩

/-- The option that names the file of the request. -/
def requestOption : OptionForm := ⟨"request", some 'r', true, true, "Query request JSON"⟩

/-- The option that asks for indentation. -/
def prettyOption : OptionForm := ⟨"pretty", none, false, false, "Pretty-print the response"⟩

/-- The command that answers a request. -/
def runCommand : CommandForm where
  name := "run"
  about := "Evaluate a query request against a dataset"
  options := [datasetOption, requestOption, prettyOption]
  argument := none

/-- The command that prints the tree of an expression. -/
def parseCommand : CommandForm where
  name := "parse"
  about := "Print the function tree of a target expression"
  options := []
  argument := some ("EXPRESSION", "Target expression")

/-- The command that checks the settings. -/
def checkCommand : CommandForm where
  name := "check-config"
  about := "Validate configuration file"
  options := []
  argument := none

/-- The program. -/
def program : ProgramForm where
  name := "kuba-expr"
  version := "0.1.0"
  about := "Evaluate time-series target expressions"
  shared := [configOption]
  commands := [runCommand, parseCommand, checkCommand]

/-- What a command line asks for. -/
inductive Task where
  /-- To answer the request of one file over the data set of another. -/
  | run (dataset request : Text) (pretty : Bool)
  /-- To print the tree of an expression. -/
  | parse (expression : Text)
  /-- To check the settings. -/
  | checkConfig
  deriving DecidableEq, Repr

/-- What the words of a command line come to. -/
inductive Invocation where
  /-- A task under the settings of a file, if one is named. -/
  | task (config : Option Text) (task : Task)
  /-- A text to be printed. -/
  | explain (page : Text)
  /-- Nothing, as they are malformed. -/
  | misuse
  deriving DecidableEq, Repr

namespace Invocation

/-- The task of a command. -/
def taskOf? (c : CommandForm) (g : Given) : Option Task :=
  if c == runCommand then
    match g.value? datasetOption.long, g.value? requestOption.long with
    | some dataset, some request => some (.run dataset request (g.has prettyOption.long))
    | _, _ => none
  else if c == parseCommand then g.arguments.head?.map Task.parse
  else some .checkConfig

/-- The command of a name. -/
def commandOf? (name : Text) : Option CommandForm :=
  program.commands.find? fun c => Text.of c.name == name

/-- The words after the command that explains commands. -/
def explainWords : List Text → Invocation
  | [] => explain program.page
  | [name] =>
    if name == Text.of helpCommand.name then explain program.helpPage
    else
      match commandOf? name with
      | some c => explain (program.commandPage c)
      | none => misuse
  | _ => misuse

/-- The words after the name of a command. A file of settings named after the command takes the
place of one named before it. -/
def ofCommand (config : Option Text) (c : CommandForm) (words : List Text) : Invocation :=
  match c.read program.shared words with
  | .error .help => explain (program.commandPage c)
  | .error _ => misuse
  | .ok g =>
    match taskOf? c g with
    | some t => task ((g.value? configOption.long).or config) t
    | none => misuse

/-- Whether a word is the name of a command. -/
def isCommand (word : Text) : Bool :=
  (commandOf? word).isSome || word == Text.of helpCommand.name

/-- What the words of a command line come to. -/
def ofWords (words : List Text) : Invocation :=
  let options := program.shared ++ [helpOption, versionOption]
  match readWords options 0 isCommand Given.empty none words with
  | .error .help => explain program.page
  | .error .version => explain program.versionLine
  | .error .misuse => misuse
  | .ok (_, []) => misuse
  | .ok (g, name :: rest) =>
    match commandOf? name with
    | some c => ofCommand (g.value? configOption.long) c rest
    | none => explainWords rest

end Invocation

/-! ## Carrying out -/

/-- What a program can see of its surroundings. -/
structure Surroundings where
  /-- The text of a file, if it can be read. -/
  file : Text → Option Text
  /-- The environment. -/
  environment : Settings.Environment
  /-- How many expressions the machine can evaluate at a time. -/
  parallel : Nat
  /-- What random choices are drawn from. -/
  seed : Nat

/-- What a program leaves behind. -/
structure Outcome where
  /-- Zero for success, one for a failure, two for a malformed command line, a hundred and one where
  the program has ended. -/
  code : Nat
  /-- What has been printed. -/
  output : Text
  deriving DecidableEq, Repr

/-- A success. -/
def Outcome.success (output : Text) : Outcome := ⟨0, output⟩

/-- A failure after something has been printed. -/
def Outcome.failure (output : Text) : Outcome := ⟨1, output⟩

/-- The end of the program, with nothing printed. -/
def Outcome.ended : Outcome := ⟨101, []⟩

/-- The file that settings are read from when none is named. -/
def defaultConfig : Text := Text.of "kuba-expr.toml"

/-- The settings of a text under an environment. -/
def settingsOf (w : Surroundings) (t : Text) : Except SettingsFault Settings :=
  match (Settings.standard w.parallel).ofText? t with
  | some s => .ok (s.override w.environment)
  | none => .error .malformed

/-- The settings of a file under an environment. -/
def settingsOfFile (w : Surroundings) (name : Text) : Except SettingsFault Settings :=
  match w.file name with
  | some t => settingsOf w t
  | none => .error .unreadable

/-- The settings, which must be usable. -/
def settings (w : Surroundings) (config : Option Text) : Except SettingsFault Settings := do
  let s ←
    match config with
    | some name => settingsOfFile w name
    | none =>
      match w.file defaultConfig with
      | some t => settingsOf w t
      | none => .ok ((Settings.standard w.parallel).override w.environment)
  match s.fault? with
  | some f => throw f
  | none => return s

/-- The engine of a data set under settings. -/
def engineOf (w : Surroundings) (s : Settings) (d : DataSet) : Engine :=
  ⟨d.catalog, s.layout, (Archive.mk d.samples).source, shuffle w.seed⟩

/-- What the request of one file over the data set of another comes to, if they can be read. -/
def respond? (w : Surroundings) (s : Settings) (dataset request : Text) :
    Option (Except Fault (List Response)) := do
  let d ← ((← w.file dataset) |> Json.read?).bind DataSet.ofJson?
  let r ← ((← w.file request) |> Json.read?).bind Request.ofJson?
  let session := Session.start (s.expiration * 1000) (Clock.still 0)
  return ((r.answer (engineOf w s d)).run.run session).1

/-- Carries out a task under settings. -/
def Task.perform (w : Surroundings) (s : Settings) : Task → Outcome
  | run dataset request pretty =>
    match respond? w s dataset request with
    | some (.ok responses) => .success (printResponses pretty responses)
    | some (.error f) => if f.endsProgram then .ended else .failure []
    | none => .failure []
  | parse expression =>
    match printExpression expression with
    | (output, none) => .success output
    | (output, some _) => .failure output
  | checkConfig => .success (printSettings s)

/-- Carries out what a command line comes to. -/
def Invocation.perform (w : Surroundings) : Invocation → Outcome
  | task config t =>
    match settings w config with
    | .ok s => t.perform w s
    | .error _ => .failure []
  | explain page => .success page
  | misuse => ⟨2, []⟩

/-- Carries out the words of a command line. -/
def perform (w : Surroundings) (words : List Text) : Outcome :=
  (Invocation.ofWords words).perform w

/-- The files that carrying out a command line may read. -/
def Invocation.files : Invocation → List Text
  | task config t =>
    config.getD defaultConfig ::
      match t with
      | .run dataset request _ => [dataset, request]
      | _ => []
  | _ => []

end SeriesQuery.CommandLine
