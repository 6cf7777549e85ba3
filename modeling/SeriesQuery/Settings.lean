import SeriesQuery.Resolver
import SeriesQuery.Text.Blank
import SeriesQuery.Toml.Reader

/-!
# Settings

What a user of the engine can set: how long caches keep what is not used, how many expressions
may be evaluated at a time, where the catalog keeps what resolving needs, and how much is logged.
Settings are read from a TOML document, where anything may be left out; variables of the
environment override them.

`ofText?` reads and `toText` writes; what is written reads back as the same settings.
-/

namespace SeriesQuery

/-- Settings. -/
structure Settings where
  /-- How many seconds caches keep what is not used. -/
  expiration : Nat
  /-- How many expressions may be evaluated at a time. -/
  parallel : Nat
  /-- Where the catalog keeps what resolving needs. -/
  layout : Layout
  /-- How much is logged. -/
  logLevel : Text
  deriving DecidableEq, Repr

/-- Why settings cannot be used. -/
inductive SettingsFault where
  /-- There is no file to read them from. -/
  | unreadable
  /-- The document is malformed, or a setting is of the wrong kind. -/
  | malformed
  /-- A number is beyond what a document can hold. -/
  | tooLarge
  /-- Caches would keep nothing. -/
  | zeroExpiration
  /-- Nothing could be evaluated. -/
  | zeroParallel
  /-- A table or a field has no name. -/
  | emptyName (setting : Text)
  deriving DecidableEq, Repr

/-- The wording of a fault. -/
def SettingsFault.message : SettingsFault → Text
  | unreadable => Text.of "Failed to read the settings"
  | malformed => Text.of "Malformed settings"
  | tooLarge => Text.of "Failed to serialize config: out-of-range value for u64 type"
  | zeroExpiration => Text.of "Cache expiration must be > 0 seconds"
  | zeroParallel => Text.of "Max parallel targets must be > 0"
  | emptyName setting => setting ++ Text.of " cannot be empty"

namespace Settings

/-- The settings when nothing is set, on a machine that can do so much at a time. -/
def standard (parallel : Nat) : Settings where
  expiration := 60
  parallel := parallel
  layout := ⟨Text.of "ActiveMeasurements", Text.of "ID", Text.of "PointTag", Text.of "SignalID"⟩
  logLevel := Text.of "info"

/-! ## Documents -/

/-- The values of the fields of a section, each none if it is left out. A section is a table, an
array of its fields in their order, or a date, which sets none of them. -/
def fields? (names : List String) : Toml → Option (List (Option Toml))
  | .table _ members => some (names.map fun name => Toml.lookup (Text.of name) members)
  | .array items => some ((List.range names.length).map fun i => items[i]?)
  | .moment _ => some (names.map fun _ => none)
  | .tables items =>
    some ((List.range names.length).map fun i => items[i]?.map (Toml.table .header))
  | _ => none

/-- A setting that is a natural number below `2 ^ 64`. -/
def natural? (otherwise : Nat) : Option Toml → Option Nat
  | none => some otherwise
  | some (.integer n) => if 0 ≤ n then some n.toNat else none
  | some _ => none

/-- A setting that is a string. -/
def text? (otherwise : Text) : Option Toml → Option Text
  | none => some otherwise
  | some (.string t) => some t
  | some _ => none

/-- The values of the fields of a section that may be left out. -/
def section? (names : List String) : Option Toml → Option (List (Option Toml))
  | none => some (names.map fun _ => none)
  | some value => fields? names value

/-- The settings of a document over those that hold where it sets nothing. -/
def ofToml? (s : Settings) (document : Toml.Members) : Option Settings := do
  let cache ← section? ["expiration_secs"] (Toml.lookup (Text.of "cache") document)
  let query ← section?
    ["max_parallel_targets", "default_metadata_table", "key_field", "tag_field",
      "signal_id_field"]
    (Toml.lookup (Text.of "query") document)
  let logging ← section? ["log_level"] (Toml.lookup (Text.of "logging") document)
  match cache, query, logging with
  | [expiration], [parallel, table, keyField, tagField, signalField], [logLevel] =>
    return {
      expiration := ← natural? s.expiration expiration
      parallel := ← natural? s.parallel parallel
      layout := {
        table := ← text? s.layout.table table
        keyField := ← text? s.layout.keyField keyField
        tagField := ← text? s.layout.tagField tagField
        signalField := ← text? s.layout.signalField signalField }
      logLevel := ← text? s.logLevel logLevel }
  | _, _, _ => none

/-- The settings that a text spells over those that hold where it sets nothing. -/
def ofText? (s : Settings) (t : Text) : Option Settings := (Toml.read? t).bind s.ofToml?

/-- The text of settings. -/
def toText (s : Settings) : Except SettingsFault Text :=
  let line (name : String) (value : Text) : Text := Text.of name ++ Text.of " = " ++ value ++ ['\n']
  if twoTo 63 ≤ s.expiration ∨ twoTo 63 ≤ s.parallel then .error .tooLarge
  else
    .ok <| List.flatten [
      Text.of "[cache]\n",
      line "expiration_secs" (Text.ofNat s.expiration),
      Text.of "\n[query]\n",
      line "max_parallel_targets" (Text.ofNat s.parallel),
      line "default_metadata_table" (Toml.quoted s.layout.table),
      line "key_field" (Toml.quoted s.layout.keyField),
      line "tag_field" (Toml.quoted s.layout.tagField),
      line "signal_id_field" (Toml.quoted s.layout.signalField),
      Text.of "\n[logging]\n",
      line "log_level" (Toml.quoted s.logLevel)]

/-! ## The environment -/

/-- The value of a variable of the environment, if it is set. -/
abbrev Environment := String → Option Text

/-- The settings under an environment. A number that is malformed is passed over. -/
def override (s : Settings) (env : Environment) : Settings :=
  let number (name : String) (otherwise : Nat) : Nat :=
    ((env name).bind (readNatBelow? (twoTo 64))).getD otherwise
  { s with
    expiration := number "KUBA_EXPR_CACHE_EXPIRATION_SECS" s.expiration
    parallel := number "KUBA_EXPR_MAX_PARALLEL_TARGETS" s.parallel
    layout := { s.layout with table := (env "KUBA_EXPR_METADATA_TABLE").getD s.layout.table }
    logLevel := (env "RUST_LOG").getD s.logLevel }

/-! ## Checks -/

/-- The names that must not be blank, with the settings they are the values of. -/
def names (s : Settings) : List (Text × Text) := [
  (Text.of "default_metadata_table", s.layout.table),
  (Text.of "key_field", s.layout.keyField),
  (Text.of "tag_field", s.layout.tagField),
  (Text.of "signal_id_field", s.layout.signalField)]

/-- Why settings cannot be used, if they cannot. -/
def fault? (s : Settings) : Option SettingsFault :=
  if s.expiration == 0 then some .zeroExpiration
  else if s.parallel == 0 then some .zeroParallel
  else (s.names.find? fun (_, name) => (Text.trim name).isEmpty).map fun (setting, _) =>
    .emptyName setting

end Settings

end SeriesQuery
