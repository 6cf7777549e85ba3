import SeriesQuery.Evaluation.Scope

/-!
# Resolved targets

The series that a list of targets stands for, each once, in the order in which they were first
named, with the name they are shown under. A target may give its series an alias. The first alias
of a series wins over all names without one, and the first name wins among those.
-/

namespace SeriesQuery

/-- A series that a target stands for. -/
structure Target where
  /-- The key of the series. -/
  key : Text
  /-- The name it is shown under. -/
  display : Text
  /-- Whether the name comes from an alias. -/
  aliased : Bool
  deriving DecidableEq, Repr

/-- The series of a list of targets. -/
structure Targets where
  /-- The series in the order they were first named. -/
  entries : List Target
  /-- The aliases in lower case, with the key that each was first given to. -/
  aliases : List (Text × Text)
  deriving DecidableEq, Repr

namespace Targets

/-- No targets. -/
def empty : Targets := ⟨[], []⟩

/-- The entry of a key. -/
def find? (m : Targets) (key : Text) : Option Target := m.entries.find? (·.key == key)

/-- The name that a key is shown under. -/
def displayOf? (m : Targets) (key : Text) : Option Text := (m.find? key).map (·.display)

/-- Whether a key is shown under an alias. -/
def isAliased (m : Targets) (key : Text) : Bool :=
  match m.find? key with
  | some t => t.aliased
  | none => false

/-- The key that an alias was first given to. -/
def aliasTarget? (m : Targets) (name : Text) : Option Text :=
  (m.aliases.find? (·.1 == NameTable.normalize name)).map (·.2)

/-- Adds a series under its own name, and says whether it is new. -/
def insert (m : Targets) (key display : Text) : Bool × Targets :=
  if (m.find? key).isSome then (false, m)
  else (true, { m with entries := m.entries ++ [⟨key, display, false⟩] })

/-- The aliases with one more, unless it has been given before. -/
def addAlias (m : Targets) (name key : Text) : List (Text × Text) :=
  let lower := Text.asciiLower name
  if (m.aliases.find? (·.1 == lower)).isSome then m.aliases else m.aliases ++ [(lower, key)]

/-- Adds a series under an alias, and says whether it is new or had none before. -/
def insertAliased (m : Targets) (key name display : Text) : Bool × Targets :=
  let aliases := m.addAlias name key
  match m.find? key with
  | none => (true, ⟨m.entries ++ [⟨key, display, true⟩], aliases⟩)
  | some t =>
    if t.aliased then (false, { m with aliases })
    else
      let rename (t : Target) : Target := if t.key == key then ⟨key, display, true⟩ else t
      (true, ⟨m.entries.map rename, aliases⟩)

/-- The keys in order. -/
def keys (m : Targets) : List Text := m.entries.map (·.key)

/-- All names that parameters may use for the series: those they are shown under, then the
aliases. -/
def names (m : Targets) : List (Text × Text) :=
  (m.entries.map fun t => (t.display, t.key)) ++ m.aliases

end Targets

end SeriesQuery
