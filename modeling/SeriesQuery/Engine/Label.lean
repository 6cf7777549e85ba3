import SeriesQuery.Engine.Session

/-!
# Labels

A label is a template for names. A field of the catalog in braces stands for its value in the row
that describes the series; `Table.` in front names the table of that row. Names that come out the
same are numbered.
-/

namespace SeriesQuery

/-- A template, and the table that it takes its rows from. -/
structure Template where
  /-- The template as it is written. -/
  whole : Text
  /-- The table, if one is named. -/
  table : Option Text
  /-- The template without the name of the table. -/
  body : Text
  deriving DecidableEq, Repr

namespace Template

/-- The template of a text. What stands before its first point is a table if there is one of that
name. -/
def ofText (catalog : Catalog) (whole : Text) : Template :=
  match Text.splitOnce? '.' whole with
  | some (lead, body) =>
    let table := Text.trim lead
    if !lead.contains '{' && catalog.hasTable table then ⟨whole, some table, body⟩
    else ⟨whole, none, whole⟩
  | none => ⟨whole, none, whole⟩

/-- The field in braces at the front of a text, after its opening brace, and what follows. -/
def field? : Text → Option (Text × Text)
  | [] => none
  | c :: rest =>
    if !isAliasStart c then none
    else
      let isFieldChar (c : Char) := isAliasChar c || c == '.'
      match rest.dropWhile isFieldChar with
      | '}' :: after => some (c :: rest.takeWhile isFieldChar, after)
      | _ => none

theorem length_lt_of_field? {t name after : Text} (h : field? t = some (name, after)) :
    after.length < t.length := by
  unfold field? at h
  split at h
  · simp at h
  · rename_i c rest
    simp only at h
    split at h
    · simp at h
    · split at h
      · rename_i tail hd
        simp only [Option.some.injEq, Prod.mk.injEq] at h
        have hl := (List.dropWhile_sublist (l := rest)
          fun c => isAliasChar c || c == '.').length_le
        rw [hd, h.2] at hl
        simp only [List.length_cons] at hl ⊢
        omega
      · simp at h

/-- A text with the fields of a row put in. A field that the row does not have stays as it is
written. -/
def fill (row : Fields) : Text → Text
  | [] => []
  | c :: rest =>
    if c == '{' then
      match _h : field? rest with
      | some (name, after) =>
        ((row.get? name).getD ('{' :: name ++ ['}'])) ++ fill row after
      | none => c :: fill row rest
    else c :: fill row rest
termination_by t => t.length
decreasing_by
  · have := length_lt_of_field? _h
    simp only [List.length_cons]
    omega
  · simp
  · simp

/-- The name that a template gives to the series of a root. -/
def render (engine : Engine) (t : Template) (root : Text) : Text :=
  match Resolver.describe? engine.catalog engine.layout t.table root with
  | none => t.body
  | some row => fill row t.body

/-- What a rendered label is kept under. -/
def cacheKey (t : Template) (root : Text) : Text := t.whole ++ '@' :: root

/-- The name that a template gives, rendered once for as long as it is used. Without braces the
template itself is the name. -/
def renderCached (engine : Engine) (t : Template) (root : Text) : Step Text :=
  if t.body.contains '{' then Step.label (t.cacheKey root) fun _ => t.render engine root
  else pure t.body

end Template

/-! ## Names of their own -/

/-- A name with a number after it. -/
def numbered (name : Text) (n : Nat) : Text := name ++ ' ' :: Text.ofNat n

/-- Names that have been given out, and how far the numbers after each have gone. -/
structure NamesInUse where
  /-- Names that no numbered name may be equal to. -/
  taken : List Text
  /-- Names that have been given out. -/
  given : List Text
  /-- The last number tried after a name. -/
  counters : List (Text × Nat)

namespace NamesInUse

/-- The first number above `n` with which a name is not taken. One more try than there are names
taken suffices. -/
def nextFree (taken : List Text) (name : Text) : Nat → Nat → Nat
  | 0, n => n + 1
  | fuel + 1, n =>
    if taken.contains (numbered name (n + 1)) then nextFree taken name fuel (n + 1) else n + 1

/-- The last number tried after a name, from one. -/
def counter (u : NamesInUse) (name : Text) : Nat :=
  match u.counters.find? (·.1 == name) with
  | some (_, n) => n
  | none => 1

/-- A name as it is given out: itself the first time, then with a number. -/
def give (u : NamesInUse) (name : Text) : Text × NamesInUse :=
  if u.given.contains name then
    let n := nextFree u.taken name u.taken.length (u.counter name)
    let fresh := numbered name n
    (fresh, ⟨fresh :: u.taken, fresh :: u.given, (name, n) :: u.counters⟩)
  else (name, { u with given := name :: u.given })

/-- Names as they are given out one after the other. -/
def giveAll (u : NamesInUse) : List Text → List Text
  | [] => []
  | name :: rest =>
    let (name, u) := u.give name
    name :: u.giveAll rest

end NamesInUse

/-- The names made different: the first of several equal ones stays, the others get numbers from
two on, and no number makes a name equal to another in the list. -/
def distinctNames (names : List Text) : List Text := (NamesInUse.mk names [] []).giveAll names

/-- A template's text as often as there are names, numbered from one. -/
def enumerated (body : Text) (count : Nat) : List Text :=
  (List.range count).map fun i => numbered body (i + 1)

end SeriesQuery
