import Mathlib.Data.List.Forall2
import SeriesQuery.Catalog.Predicate
import SeriesQuery.Proofs.StandardRegex

/-!
# What a pattern stands for

A pattern stands for a value if the value can be cut into pieces, one for each character of the
pattern and in their order: any text for `%`, one character for `_`, and for every other character
one that folds to the same.

The catalog asks a library of regular expressions instead, with the expression that a pattern is
translated to. Of the library only what is documented is used: the expression is one of those that
are documented, with both options, an item for each character of the pattern, and the anchors
around them. Between its places each item spans a piece that the character stands for, an induction
on the pattern puts the pieces together, and the anchors make the whole value of them.
-/

namespace SeriesQuery

/-- A character of a pattern stands for a piece of a value. -/
def SignStandsFor (p : Char) (piece : Text) : Prop :=
  p = '%' ∨ ∃ c, piece = [c] ∧ (p = '_' ∨ Text.fold p = Text.fold c)

/-- A value is made of pieces that the characters of a pattern stand for, one after the other. -/
def PatternStandsFor (pattern value : Text) : Prop :=
  ∃ pieces : List Text, pieces.flatten = value ∧ List.Forall₂ SignStandsFor pattern pieces

theorem Regex.spans_append {flags : Flags} {value s t : Text} {items more : List Item} :
    Spans flags value (items ++ more) s t
      ↔ ∃ u, Spans flags value items s u ∧ Spans flags value more u t := by
  induction items generalizing s with
  | nil => simp [Spans]
  | cons item items ih =>
      simp only [List.cons_append, Spans, ih]
      constructor
      · rintro ⟨u, hitem, v, hitems, hmore⟩
        exact ⟨v, ⟨u, hitem, hitems⟩, hmore⟩
      · rintro ⟨v, ⟨u, hitem, hitems⟩, hmore⟩
        exact ⟨u, hitem, v, hitems, hmore⟩

namespace Pattern

/-! ## The expression -/

/-- The options of a pattern's expression. -/
def flags : Regex.Flags := ⟨true, true⟩

/-- The item of one character of a pattern. -/
def signItem (p : Char) : Regex.Item :=
  if p == '%' then .star .dot else if p == '_' then .one .dot else .one (.char p)

/-- The items of a pattern's expression. -/
def items (pattern : Text) : List Regex.Item := .start :: (pattern.map signItem ++ [.stop])

theorem signExpression_eq (lib : RegexLibrary) (p : Char) :
    signExpression lib p = (signItem p).written lib := by
  unfold signExpression signItem
  split
  · rfl
  · split <;> rfl

/-- A pattern is translated to a documented expression. -/
theorem expression_eq (lib : RegexLibrary) (pattern : Text) :
    expression lib pattern = Regex.written lib flags (items pattern) := by
  have hsigns : pattern.flatMap (signExpression lib)
      = (pattern.map signItem).flatMap (Regex.Item.written lib) := by
    rw [List.flatMap_map]
    exact congrArg pattern.flatMap (funext (signExpression_eq lib))
  have hlead : Text.of "(?is)^" = flags.written ++ ['^'] := by decide
  have hitems : (items pattern).flatMap (Regex.Item.written lib)
      = ['^'] ++ pattern.flatMap (signExpression lib) ++ ['$'] := by
    simp [items, hsigns, Regex.Item.written]
  rw [Regex.written, hitems]
  calc expression lib pattern
      = flags.written ++ ['^'] ++ pattern.flatMap (signExpression lib) ++ ['$'] :=
        congrArg (· ++ pattern.flatMap (signExpression lib) ++ ['$']) hlead
    _ = flags.written ++ (['^'] ++ pattern.flatMap (signExpression lib) ++ ['$']) := by
        simp only [List.append_assoc]

/-! ## The pieces -/

theorem signItem_spans {p : Char} {value s t : Text} : (signItem p).Spans flags value s t
    ↔ ∃ piece, s = piece ++ t ∧ SignStandsFor p piece := by
  by_cases hrun : p = '%'
  · subst hrun
    have hall : ∀ c, Regex.Atom.Accepts flags .dot c := fun c => .inl rfl
    constructor
    · rintro ⟨piece, hs, -⟩
      exact ⟨piece, hs, .inl rfl⟩
    · rintro ⟨piece, hs, -⟩
      exact ⟨piece, hs, fun c _ => hall c⟩
  · have hone : ∀ c, SignStandsFor p [c] ↔ p = '_' ∨ Text.fold p = Text.fold c := by
      intro c
      simp [SignStandsFor, hrun]
    have hpiece : (∃ piece, s = piece ++ t ∧ SignStandsFor p piece)
        ↔ ∃ c, s = c :: t ∧ SignStandsFor p [c] := by
      constructor
      · rintro ⟨piece, hs, hp⟩
        obtain ⟨c, rfl, -⟩ := hp.resolve_left hrun
        exact ⟨c, hs, hp⟩
      · rintro ⟨c, hs, hp⟩
        exact ⟨[c], hs, hp⟩
    rw [hpiece]
    by_cases hdot : p = '_'
    · subst hdot
      simp [signItem, Regex.Item.Spans, Regex.Atom.Accepts, flags, hone]
    · have hsame : ∀ c, p = c ∨ Text.fold p = Text.fold c ↔ Text.fold p = Text.fold c := by
        intro c
        constructor
        · rintro (rfl | hfold)
          · rfl
          · exact hfold
        · exact .inr
      simp [signItem, hrun, hdot, Regex.Item.Spans, Regex.Atom.Accepts, flags, hone, hsame]

theorem spans_signItems {pattern value s t : Text} :
    Regex.Spans flags value (pattern.map signItem) s t
      ↔ ∃ pieces : List Text, s = pieces.flatten ++ t
        ∧ List.Forall₂ SignStandsFor pattern pieces := by
  induction pattern generalizing s with
  | nil =>
      simp only [List.map_nil, Regex.Spans, List.forall₂_nil_left_iff]
      constructor
      · rintro rfl
        exact ⟨[], rfl, rfl⟩
      · rintro ⟨_, rfl, rfl⟩
        rfl
  | cons p pattern ih =>
      simp only [List.map_cons, Regex.Spans, signItem_spans, ih, List.forall₂_cons_left_iff]
      constructor
      · rintro ⟨_, ⟨piece, rfl, hp⟩, pieces, rfl, hpieces⟩
        exact ⟨piece :: pieces, by simp, piece, pieces, hp, hpieces, rfl⟩
      · rintro ⟨_, rfl, piece, pieces, hp, hpieces, rfl⟩
        exact ⟨pieces.flatten ++ t, ⟨piece, by simp, hp⟩, pieces, rfl, hpieces⟩

/-- The anchors hold the pieces to the beginning and the end of the value. -/
theorem found_iff {pattern value : Text} :
    Regex.Found flags (items pattern) value ↔ PatternStandsFor pattern value := by
  simp only [Regex.Found, items, Regex.Spans, Regex.Item.Spans, Regex.spans_append,
    spans_signItems, PatternStandsFor]
  constructor
  · rintro ⟨s, t, -, _, ⟨rfl, rfl⟩, _, ⟨pieces, hs, hpieces⟩, _, ⟨rfl, rfl⟩, -⟩
    exact ⟨pieces, by rw [hs, List.append_nil], hpieces⟩
  · rintro ⟨pieces, rfl, hpieces⟩
    exact ⟨pieces.flatten, [], List.suffix_refl _, pieces.flatten, ⟨rfl, rfl⟩, [],
      ⟨pieces, (List.append_nil _).symm, hpieces⟩, [], ⟨rfl, rfl⟩, rfl⟩

instance (pattern value : Text) : Decidable (PatternStandsFor pattern value) :=
  decidable_of_iff (Regex.finds flags (items pattern) value = true)
    (Regex.finds_iff.trans found_iff)

/-- Two runs with a line break in one of them, and a point that stands for itself alone. -/
example : PatternStandsFor (Text.of "%a.%") (Text.of "B\na.\nA.x")
    ∧ ¬ PatternStandsFor (Text.of "%a.%") (Text.of "bab") := by decide

/-- The test of a compiled pattern says whether the pattern stands for a value. -/
theorem test_iff {lib : RegexLibrary} (hlib : lib.Documented) {pattern : Text}
    {test : Text → Bool} (hcompile : compile? lib pattern = some test) (value : Text) :
    test value = true ↔ PatternStandsFor pattern value := by
  rw [compile?, expression_eq] at hcompile
  exact (hlib flags (items pattern) test hcompile value).trans found_iff

end Pattern

/-- A row satisfies `LIKE` if it has the field and the pattern stands for the whole of its value:
the value is made of one piece for each character of the pattern, any text for `%`, one character
for `_`, and one that folds to the same for every other. -/
theorem Predicate.holds_like_iff {lib : RegexLibrary} (hlib : lib.Documented) {pattern : Text}
    (hcompiles : (Pattern.compile? lib pattern).isSome = true) (field : Text) (row : Fields) :
    (Predicate.like field pattern).holds lib row = true
      ↔ ∃ (value : Text) (pieces : List Text), row.get? field = some value
        ∧ pieces.flatten = value ∧ List.Forall₂ SignStandsFor pattern pieces := by
  obtain ⟨test, htest⟩ := Option.isSome_iff_exists.mp hcompiles
  unfold Predicate.holds
  rw [htest]
  cases row.get? field with
  | none => simp
  | some value =>
      dsimp only
      rw [Pattern.test_iff hlib htest]
      constructor
      · rintro ⟨pieces, hvalue, hpieces⟩
        exact ⟨value, pieces, rfl, hvalue, hpieces⟩
      · rintro ⟨_, pieces, ⟨⟩, hvalue, hpieces⟩
        exact ⟨pieces, hvalue, hpieces⟩

theorem Predicate.holds_like_iff_lines :
    let row := Fields.ofList [(Text.of "Device", Text.of "B\na.\nA.x")]
    RegexLibrary.standard.Documented
      ∧ (Pattern.compile? .standard (Text.of "%a._A%")).isSome = true
      ∧ (Predicate.like (Text.of "device") (Text.of "%a._A%")).holds .standard row = true := by
  intro row
  have hcompiles : (Pattern.compile? .standard (Text.of "%a._A%")).isSome = true := by
    decide +kernel
  have hiff := Predicate.holds_like_iff RegexLibrary.standard_documented hcompiles
    (Text.of "device") row
  refine ⟨RegexLibrary.standard_documented, hcompiles, hiff.mpr ⟨Text.of "B\na.\nA.x",
    [Text.of "B\n", ['a'], ['.'], ['\n'], ['A'], Text.of ".x"], by decide, by decide, ?_⟩⟩
  exact .cons (.inl rfl) (.cons (.inr ⟨'a', rfl, .inr rfl⟩) (.cons (.inr ⟨'.', rfl, .inr rfl⟩)
    (.cons (.inr ⟨'\n', rfl, .inl rfl⟩) (.cons (.inr ⟨'A', rfl, .inr rfl⟩)
      (.cons (.inl rfl) .nil)))))

end SeriesQuery
