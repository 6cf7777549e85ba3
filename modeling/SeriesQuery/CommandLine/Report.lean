import SeriesQuery.Commands
import SeriesQuery.Expression.Outline
import SeriesQuery.Json.Printer
import SeriesQuery.Response
import SeriesQuery.Settings
import SeriesQuery.Text.Literal

/-!
# What the commands print

The responses to a request as JSON; the commands and the tree of calls of an expression; a
summary of the settings.
-/

namespace SeriesQuery.CommandLine

/-! ## Responses -/

/-- The responses to a request, on one line or with indentation. -/
def printResponses (pretty : Bool) (responses : List Response) : Text :=
  let json := Json.array (responses.map Response.toJson)
  (if pretty then json.indented 0 else json.compact) ++ ['\n']

/-! ## Expressions -/

/-- A truth value. -/
def printFlag (b : Bool) : Text := if b then Text.of "true" else Text.of "false"

/-- Items between brackets. -/
def printList (items : List Text) : Text := '[' :: Text.join [',', ' '] items ++ [']']

/-- The commands of an expression, on one line. -/
def printCommands (c : Commands) : Text :=
  let setting (s : Text × Text) : Text := Text.literal s.1 ++ ':' :: ' ' :: Text.literal s.2
  let fields := [
    Text.of "drop_empty_series: " ++ printFlag c.dropEmptySeries,
    Text.of "include_peaks: " ++ printFlag c.includePeaks,
    Text.of "full_resolution: " ++ printFlag c.fullResolution,
    Text.of "imports: " ++ printList (c.imports.map Text.literal),
    Text.of "radial_distribution: " ++
      '\x7b' :: Text.join [',', ' '] (c.radialDistribution.entries.map setting) ++ ['\x7d']]
  Text.of "Modifiers: QueryModifiers \x7b " ++ Text.join [',', ' '] fields ++ [' ', '\x7d', '\n']

/-- A line that is indented by two spaces a level. -/
def printLine (level : Nat) (t : Text) : Text := List.replicate (2 * level) ' ' ++ t ++ ['\n']

/-- A call by its name and parameters. -/
def printCall (c : Call) : Text :=
  let name := Call.fullName c.grouping c.operator
  if c.parameters.isEmpty then name else name ++ ' ' :: printList c.parameters

/-- The targets beside the calls of an expression. -/
def printTargets (e : Expression) : Text :=
  Text.trim (Text.stripWhile (· == ';') (Text.trim e.remainder))

/-- Lines that have been printed, and the fault that kept the rest from it, if there is one. -/
abbrev Printed := Text × Option Fault

/-- Prints what follows unless there has been a fault. -/
def Printed.andThen (p : Printed) (rest : Unit → Printed) : Printed :=
  match p.2 with
  | some _ => p
  | none =>
    let (t, fault) := rest ()
    (p.1 ++ t, fault)

/-- The tree of an expression: each call with the tree of its inside one level further in, then
the targets beside the calls. `depth` bounds how deep calls nest by the parentheses of the text: a
text without any holds no call. -/
def printTreeFrom (depth level : Nat) (text : Text) : Printed :=
  match Expression.parse text with
  | .error f => ([], some f)
  | .ok e =>
    let calls : Printed :=
      match depth with
      | 0 => ([], none)
      | depth + 1 =>
        e.calls.foldl
          (fun printed call =>
            printed.andThen fun _ =>
              Printed.andThen (printLine level (printCall call), none) fun _ =>
                printTreeFrom depth (level + 1) call.inner)
          ([], none)
    calls.andThen fun _ =>
      let targets := printTargets e
      (if targets.isEmpty then [] else printLine level targets, none)

/-- The tree of an expression. -/
def printTree (text : Text) : Printed := printTreeFrom (parens text) 0 text

/-- The commands of an expression, if it has any, and its tree. -/
def printExpression (text : Text) : Printed :=
  let (commands, rest) := Commands.extract text
  Printed.andThen (if commands.isEmpty then [] else printCommands commands, none) fun _ =>
    printTree rest

/-! ## Settings -/

/-- A summary of the settings. -/
def printSettings (s : Settings) : Text :=
  List.flatten [
    Text.of "Configuration is valid!\n\nCache:\n  Expiration: ", Text.ofNat s.expiration,
    Text.of "s\n\nQuery:\n  Max parallel targets: ", Text.ofNat s.parallel,
    Text.of "\n  Metadata table: ", s.layout.table,
    Text.of "\n  Fields: key=", s.layout.keyField, Text.of ", tag=", s.layout.tagField,
    Text.of ", signal id=", s.layout.signalField,
    Text.of "\n\nLogging:\n  Log level: ", s.logLevel, ['\n']]

end SeriesQuery.CommandLine
