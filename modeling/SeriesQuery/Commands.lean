import SeriesQuery.Fields
import SeriesQuery.Text.Folding
import SeriesQuery.Text.Nesting

/-!
# Commands

Beside its targets an expression may hold commands, each a whole segment between semicolons:

* `DropEmptySeries` leaves series without samples out of the answer;
* `IncludePeaks` keeps the extremes when samples are thinned out;
* `FullResolutionQuery` and `FullResolutionData` ask for all samples;
* `Imports={Field, Field}` copies catalog fields to the answer;
* `RadialDistribution={name=value; name=value}` copies settings to the answer.

They are in any letter case. Commands inside quotes, calls or brackets are no commands.
-/

namespace SeriesQuery

/-- The commands of an expression. -/
structure Commands where
  /-- Leave out series without samples. -/
  dropEmptySeries : Bool
  /-- Keep the extremes. -/
  includePeaks : Bool
  /-- Ask for all samples. -/
  fullResolution : Bool
  /-- Catalog fields to copy. -/
  imports : List Text
  /-- Settings to copy. -/
  radialDistribution : Fields
  deriving DecidableEq

namespace Commands

/-- No commands. -/
def none : Commands := ⟨false, false, false, [], Fields.empty⟩

/-- Whether no command has an effect. -/
def isEmpty (c : Commands) : Bool := c == none

/-- What stands between the braces of `name = { … }`, on one line. -/
def braced? (name segment : Text) : Option Text := do
  let rest ← Text.afterFolded? name segment
  match Text.trimStart rest with
  | '=' :: rest =>
    match Text.trimStart rest with
    | '{' :: rest =>
      if rest.getLast? == some '}' && !rest.dropLast.contains '\n' then some rest.dropLast
      else failure
    | _ => failure
  | _ => failure

/-- What separates the items of a list. -/
def isItemSeparator (c : Char) : Bool := c == ',' || c == ';'

/-- The names of a list, trimmed, empty ones left out. -/
def nameList (body : Text) : List Text :=
  ((Text.splitWhere isItemSeparator body).map Text.trim).filter (!·.isEmpty)

/-- The settings of a list, those without name or equals sign left out. -/
def settings (body : Text) : Fields :=
  Fields.ofList <| (Text.splitWhere isItemSeparator body).filterMap fun item => do
    let (name, value) ← Text.splitOnce? '=' item
    let name := Text.trim name
    if name.isEmpty then failure else some (name, Text.trim value)

/-- The commands with a segment taken in, if it is one. -/
def take? (c : Commands) (segment : Text) : Option Commands :=
  if Text.sameFolded (.of "DropEmptySeries") segment then some { c with dropEmptySeries := true }
  else if Text.sameFolded (.of "IncludePeaks") segment then some { c with includePeaks := true }
  else if Text.sameFolded (.of "FullResolutionQuery") segment
      || Text.sameFolded (.of "FullResolutionData") segment then
    some { c with fullResolution := true }
  else
    match braced? (.of "Imports") segment with
    | some body => some { c with imports := nameList body }
    | Option.none =>
      (braced? (.of "RadialDistribution") segment).map fun body =>
        { c with radialDistribution := settings body }

/-- The commands among segments, added to those before, and the segments that are none. Empty
segments are left out. -/
def sortOut (c : Commands) : List Text → Commands × List Text
  | [] => (c, [])
  | segment :: rest =>
    match c.take? segment with
    | some c => sortOut c rest
    | Option.none =>
      let (c, kept) := sortOut c rest
      (c, if segment.isEmpty then kept else segment :: kept)

/-- What stands between kept segments. -/
def semicolon : Text := [';', ' ']

/-- The commands of an expression and the expression without them. Without any command the
expression only loses white space and semicolons around it. -/
def extract (expression : Text) : Commands × Text :=
  let segments := Text.fields ';' expression
  let (c, kept) := sortOut none segments
  if segments.any fun s => (none.take? s).isSome then (c, Text.join semicolon kept)
  else (c, Text.trim (Text.stripWhile (· == ';') (Text.trim expression)))

end Commands

end SeriesQuery
