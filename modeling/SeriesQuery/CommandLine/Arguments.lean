import SeriesQuery.Text.Basic

/-!
# Command-line arguments

A command line is described by data: commands, each with its options and at most one argument of
its own. The same description is used to read the words of a command line (here) and to explain
them (`SeriesQuery.CommandLine.Help`).

An option is written with its long name after two hyphens or with its letter after one. Its value
is the next word, or comes attached: after an equals sign, or right after the letter. Letters of
options without value may be run together. After a word of two hyphens alone no word is an
option. An option is given at most once.
-/

namespace SeriesQuery.CommandLine

/-- An option. -/
structure OptionForm where
  /-- The name after two hyphens. -/
  long : String
  /-- The letter after one hyphen. -/
  letter : Option Char
  /-- Whether the option has a value. -/
  hasValue : Bool
  /-- Whether the option must be given. -/
  isRequired : Bool
  /-- What the option is for. -/
  about : String
  deriving DecidableEq, Repr

/-- A command. -/
structure CommandForm where
  /-- The name. -/
  name : String
  /-- What the command is for. -/
  about : String
  /-- The options. -/
  options : List OptionForm
  /-- The name of its argument and what it is for. -/
  argument : Option (String × String)
  deriving DecidableEq, Repr

/-- Why the words of a command line are not carried out. -/
inductive Stop where
  /-- They ask for an explanation. -/
  | help
  /-- They ask for the version. -/
  | version
  /-- They are malformed. -/
  | misuse
  deriving DecidableEq, Repr

/-- The option that asks for an explanation. -/
def helpOption : OptionForm := ⟨"help", some 'h', false, false, "Print help"⟩

/-- The option that asks for the version. -/
def versionOption : OptionForm := ⟨"version", some 'V', false, false, "Print version"⟩

/-- What has been read of a command line. -/
structure Given where
  /-- The options with their values, those without value with an empty one. -/
  options : List (OptionForm × Text)
  /-- The words that are no options. -/
  arguments : List Text
  deriving DecidableEq

namespace Given

/-- Nothing. -/
def empty : Given := ⟨[], []⟩

/-- Whether an option of a long name is given. -/
def has (g : Given) (long : String) : Bool := g.options.any (·.1.long == long)

/-- The value of the option of a long name. -/
def value? (g : Given) (long : String) : Option Text :=
  (g.options.find? (·.1.long == long)).map (·.2)

/-- Takes an option in. Values must not be empty. -/
def addOption (g : Given) (o : OptionForm) (value : Text) : Except Stop Given :=
  if o == helpOption then throw .help
  else if o == versionOption then throw .version
  else if g.has o.long || (o.hasValue && value.isEmpty) then throw .misuse
  else return { g with options := g.options ++ [(o, value)] }

/-- Takes an argument in, of which there may be so many. -/
def addArgument (g : Given) (limit : Nat) (word : Text) : Except Stop Given :=
  if g.arguments.length < limit then return { g with arguments := g.arguments ++ [word] }
  else throw .misuse

end Given

/-- Whether a word cannot be the value of the option before it: it is an option itself, or two
hyphens. -/
def isOptionWord : Text → Bool
  | '-' :: _ :: _ => true
  | _ => false

/-- Reads letters of options. Gives the option that waits for its value, if the last one does. -/
def readLetters (options : List OptionForm) (g : Given) :
    Text → Except Stop (Given × Option OptionForm)
  | [] => .ok (g, none)
  | c :: rest =>
    match options.find? (·.letter == some c) with
    | none => .error .misuse
    | some o =>
      if o.hasValue then
        match rest with
        | [] => .ok (g, some o)
        | '=' :: value => (g.addOption o value).map (·, none)
        | value => (g.addOption o value).map (·, none)
      else
        match g.addOption o [] with
        | .error s => .error s
        | .ok g => readLetters options g rest

/-- Reads an option by its long name. Gives the option if it waits for its value. -/
def readLong (options : List OptionForm) (g : Given) (word : Text) :
    Except Stop (Given × Option OptionForm) :=
  let (name, attached) :=
    match Text.splitOnce? '=' word with
    | some (name, value) => (name, some value)
    | none => (word, none)
  match options.find? fun o => Text.of o.long == name with
  | none => .error .misuse
  | some o =>
    match o.hasValue, attached with
    | true, some value => (g.addOption o value).map (·, none)
    | true, none => .ok (g, some o)
    | false, some _ => .error .misuse
    | false, none => (g.addOption o []).map (·, none)

/-- Reads words up to the first that is the name of a command, and gives the words from there on.
`pending` is the option that waits for its value. -/
def readWords (options : List OptionForm) (limit : Nat) (isCommand : Text → Bool) (g : Given)
    (pending : Option OptionForm) : List Text → Except Stop (Given × List Text)
  | [] => if pending.isSome then .error .misuse else .ok (g, [])
  | word :: rest =>
    match pending with
    | some o =>
      if isOptionWord word then .error .misuse
      else
        match g.addOption o word with
        | .error s => .error s
        | .ok g => readWords options limit isCommand g none rest
    | none =>
      if isCommand word then .ok (g, word :: rest)
      else
        match word with
        | ['-', '-'] => (rest.foldlM (fun g word => Given.addArgument g limit word) g).map (·, [])
        | '-' :: '-' :: name =>
          match readLong options g name with
          | .error s => .error s
          | .ok (g, pending) => readWords options limit isCommand g pending rest
        | '-' :: c :: letters =>
          match readLetters options g (c :: letters) with
          | .error s => .error s
          | .ok (g, pending) => readWords options limit isCommand g pending rest
        | word =>
          match g.addArgument limit word with
          | .error s => .error s
          | .ok g => readWords options limit isCommand g none rest

/-- Reads the words after a command, all of which belong to it. -/
def CommandForm.read (c : CommandForm) (shared : List OptionForm) (words : List Text) :
    Except Stop Given := do
  let limit := if c.argument.isSome then 1 else 0
  let options := shared ++ c.options ++ [helpOption]
  let (g, _) ← readWords options limit (fun _ => false) Given.empty none words
  if g.arguments.length < limit then throw .misuse
  if c.options.any fun o => o.isRequired && !g.has o.long then throw .misuse
  return g

end SeriesQuery.CommandLine
