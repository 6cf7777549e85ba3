import SeriesQuery.CommandLine.Program

/-!
# Running the program

Reads the files that a command line may need, carries it out, and prints what it prints.
-/

namespace SeriesQuery.CommandLine

/-- The names of the variables that settings depend on. -/
def variableNames : List String :=
  ["KUBA_EXPR_CACHE_EXPIRATION_SECS", "KUBA_EXPR_MAX_PARALLEL_TARGETS",
    "KUBA_EXPR_METADATA_TABLE", "RUST_LOG"]

/-- The text of a file, if it can be read. -/
def readFile? (name : Text) : IO (Option Text) := do
  try
    let text ← IO.FS.readFile (Text.asString name)
    return some text.toList
  catch _ => return none

/-- How many expressions are evaluated at a time where the settings do not say. -/
def standardParallel : Nat := 4

end SeriesQuery.CommandLine

open SeriesQuery SeriesQuery.CommandLine

/-- Carries out a command line. -/
def main (args : List String) : IO UInt32 := do
  let words := args.map Text.of
  let invocation := Invocation.ofWords words
  let files ← invocation.files.mapM fun name => return (name, ← readFile? name)
  let values ← variableNames.mapM fun name => return (name, ← IO.getEnv name)
  let surroundings : Surroundings := {
    file := fun name => (files.find? (·.1 == name)).bind (·.2)
    environment := fun name => ((values.find? (·.1 == name)).bind (·.2)).map Text.of
    parallel := standardParallel
    seed := ← IO.rand 1 (twoTo 31 - 2) }
  let outcome := invocation.perform surroundings
  IO.print (Text.asString outcome.output)
  return outcome.code.toUInt32
