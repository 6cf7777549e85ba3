import SeriesQuery.CommandLine.Arguments

/-!
# Explaining the command line

The page of a command says what it is for, how it is written, and what its options are for, in
two columns. The page of a program lists its commands instead.
-/

namespace SeriesQuery.CommandLine

/-- A program with commands. -/
structure ProgramForm where
  /-- The name. -/
  name : String
  /-- The version. -/
  version : String
  /-- What the program is for. -/
  about : String
  /-- The options that every command has too. -/
  shared : List OptionForm
  /-- The commands. -/
  commands : List CommandForm
  deriving DecidableEq, Repr

/-- The command that explains commands. -/
def helpCommand : CommandForm where
  name := "help"
  about := "Print this message or the help of the given subcommand(s)"
  options := []
  argument := none

/-- What an option's value is called. -/
def OptionForm.valueName (o : OptionForm) : Text :=
  '<' :: Text.asciiUpper (Text.of o.long) ++ ['>']

/-- An option by its long name, with its value. -/
def OptionForm.long? (o : OptionForm) : Text :=
  let name := '-' :: '-' :: Text.of o.long
  if o.hasValue then name ++ ' ' :: o.valueName else name

/-- An option in the column of options. -/
def OptionForm.column (o : OptionForm) : Text :=
  match o.letter with
  | some c => '-' :: c :: ',' :: ' ' :: o.long?
  | none => List.replicate 4 ' ' ++ o.long?

/-- A title over two columns. -/
def columns (title : String) (rows : List (Text × String)) : Text :=
  let width := (rows.map (·.1.length)).foldl max 0
  let line (row : Text × String) : Text :=
    [' ', ' '] ++ row.1 ++ List.replicate (width - row.1.length + 2) ' ' ++ Text.of row.2 ++ ['\n']
  Text.of title ++ ':' :: '\n' :: rows.flatMap line

/-- A page: what is explained, how it is written, and columns. -/
def page (about : String) (usage : Text) (sections : List Text) : Text :=
  Text.of about ++ Text.of "\n\nUsage: " ++ usage ++ '\n' :: sections.flatMap ('\n' :: ·)

/-- The options of a program or a command in the order in which they are explained: those of the
program before its own, then help. -/
def optionRows (options : List OptionForm) : List (Text × String) :=
  options.map fun o => (o.column, o.about)

/-- The page of a program. -/
def ProgramForm.page (p : ProgramForm) : Text :=
  CommandLine.page p.about (Text.of p.name ++ Text.of " [OPTIONS] <COMMAND>") [
    columns "Commands" ((p.commands ++ [helpCommand]).map fun c => (Text.of c.name, c.about)),
    columns "Options" (optionRows (p.shared ++ [helpOption, versionOption]))]

/-- The page of a command. -/
def ProgramForm.commandPage (p : ProgramForm) (c : CommandForm) : Text :=
  let required := (c.options.filter (·.isRequired)).flatMap fun o => ' ' :: o.long?
  let bracketed (name : String) : Text := '<' :: Text.of name ++ ['>']
  let argument :=
    match c.argument with
    | some (name, _) => ' ' :: bracketed name
    | none => []
  let usage :=
    Text.of p.name ++ ' ' :: Text.of c.name ++ Text.of " [OPTIONS]" ++ required ++ argument
  let arguments :=
    match c.argument with
    | some (name, about) => [columns "Arguments" [(bracketed name, about)]]
    | none => []
  CommandLine.page c.about usage
    (arguments ++ [columns "Options" (optionRows (p.shared ++ c.options ++ [helpOption]))])

/-- The page of the command that explains commands. -/
def ProgramForm.helpPage (p : ProgramForm) : Text :=
  CommandLine.page helpCommand.about
    (Text.of p.name ++ ' ' :: Text.of helpCommand.name ++ Text.of " [COMMAND]...")
    [columns "Arguments" [(Text.of "[COMMAND]...", "Print help for the subcommand(s)")]]

/-- The version of a program. -/
def ProgramForm.versionLine (p : ProgramForm) : Text :=
  Text.of p.name ++ ' ' :: Text.of p.version ++ ['\n']

end SeriesQuery.CommandLine
