import SeriesQuery.Proofs.GuidSpellings
import SeriesQuery.Proofs.QuotedValues

/-!
# The names of a row

One row of the catalog can be asked for in several ways: by its key, by its globally unique
identifier, by a clause that selects it. They go different ways through the resolver. A clause is
answered with rows. An identifier is looked up in its canonical form, through the text of a
predicate and the comparison of the catalog. A key stands for itself, and the row is only looked
up for the name that the series is shown under.

All of them find the row, and give the series the same key. They give it the same name too unless
the row has an empty tag. A clause and an identifier show such a series under its key, the rule for
a row without tag, which takes an empty tag for none; a key does not follow the rule, and shows
the series under the empty text.
-/

namespace SeriesQuery

/-! ## Looking a row up -/

theorem Catalog.lookup_equalsText {catalog : Catalog} {table field : Text} {rows : List Fields}
    (hrows : catalog.rows? table = some rows) (hfield : Text.IsIdentifier field) (value : Text) :
    catalog.lookup table (Predicate.equalsText field value)
      = .ok (rows.find? fun row =>
          (Predicate.compare field .equal value).holds catalog.libraries.regex row) := by
  unfold Catalog.lookup Catalog.select
  rw [hrows, Predicate.parse_equalsText hfield]
  simp [Except.map, pure, Except.pure, bind, Except.bind, List.head?_take]

/-! ## Targets of one word -/

/-- A target that is one word, without an alias before it. -/
structure Text.IsWord (t : Text) : Prop where
  ne_nil : t ≠ []
  isBlank : ∀ c ∈ t, Text.isBlank c = false
  noSemicolon : ';' ∉ t
  noEquals : '=' ∉ t

/-- A character of keys and identifiers. -/
def Text.IsWordChar (c : Char) : Prop :=
  isAsciiAlphanumeric c = true ∨ isDecimalDigit c = true ∨ c ∈ ['_', '.', '-', ':', '{', '}']

instance (c : Char) : Decidable (Text.IsWordChar c) := inferInstanceAs (Decidable (_ ∨ _))

namespace Text

theorem IsWord.of_forall {t : Text} (hne : t ≠ []) (h : ∀ c ∈ t, IsWordChar c) : IsWord t where
  ne_nil := hne
  isBlank c hc := by
    rcases h c hc with hc | hc | hc
    · exact isBlank_of_isAsciiAlphanumeric hc
    · exact isBlank_of_isDecimalDigit hc
    · simp only [List.mem_cons, List.not_mem_nil, or_false] at hc
      rcases hc with rfl | rfl | rfl | rfl | rfl | rfl <;> decide
  noSemicolon hc := absurd (h _ hc) (by decide)
  noEquals hc := absurd (h _ hc) (by decide)

theorem afterWord?_suffix {word t rest : Text} (h : afterWord? word t = some rest) :
    rest <:+ t := by
  induction word generalizing t with
  | nil => exact Option.some.inj h ▸ List.suffix_rfl
  | cons w word ih =>
      cases t with
      | nil => cases h
      | cons c t =>
          rw [afterWord?] at h
          split at h
          · exact (ih h).trans (List.suffix_cons c t)
          · cases h

variable {t : Text}

theorem IsWord.targets_eq (h : IsWord t) : targets t = [t] := by
  unfold targets fields
  rw [rawFields_of_not_mem h.noSemicolon, List.map_singleton, trim_of_forall h.isBlank]
  simp [h.ne_nil]

theorem IsWord.beginsWith_eq (h : IsWord t) (word : Text) :
    Selection.beginsWith word t = false := by
  unfold Selection.beginsWith
  split
  · next c rest hrest =>
      have hc := h.isBlank c ((afterWord?_suffix hrest).subset List.mem_cons_self)
      rw [← Bool.not_eq_true]
      intro hblank
      rw [isBlank_of_isAsciiBlank hblank] at hc
      cases hc
  · rfl

theorem IsWord.parse?_eq (h : IsWord t) : Selection.parse? t = none := by
  unfold Selection.parse?
  dsimp only
  rw [trim_of_forall h.isBlank, h.beginsWith_eq, h.beginsWith_eq]
  rfl

theorem splitAlias?_of_not_mem (h : '=' ∉ t) : splitAlias? t = none := by
  unfold splitAlias?
  split
  · rfl
  · next c rest hstart =>
      have hsuffix : rest <:+ t :=
        (List.suffix_cons c rest).trans (hstart ▸ List.dropWhile_suffix _)
      split
      · rfl
      · dsimp only
        split
        · next tail htail =>
            have hmem : '=' ∈ trimStart (rest.dropWhile isAliasChar) :=
              htail ▸ List.mem_cons_self
            refine absurd (hsuffix.subset ?_) h
            exact (List.dropWhile_suffix _).subset ((List.dropWhile_suffix _).subset hmem)
        · rfl

theorem IsWord.aliasAndTarget_eq (h : IsWord t) : aliasAndTarget t = (none, t) := by
  rw [aliasAndTarget, splitAlias?_of_not_mem h.noEquals]

end Text

section EncodedKeys

variable {key : Text} (h : isEncodedKey key = true)

include h

/-- A letter and the rest of a source, a colon, and digits. -/
theorem exists_parts_of_isEncodedKey : ∃ c source digits, key = c :: (source ++ ':' :: digits)
    ∧ Text.isAsciiLetter c = true ∧ (∀ s ∈ source, (isAliasChar s || s == '.' || s == '-') = true)
    ∧ ∀ d ∈ digits, Text.isDecimalDigit d = true := by
  cases key with
  | nil => cases h
  | cons c rest =>
      simp only [isEncodedKey, Bool.and_eq_true] at h
      obtain ⟨hletter, h⟩ := h
      split at h
      · next digits hrest =>
          rw [Bool.and_eq_true, List.all_eq_true] at h
          refine ⟨c, rest.takeWhile fun s => isAliasChar s || s == '.' || s == '-', digits, ?_,
            hletter, fun _ hs => (List.mem_takeWhile_imp hs :), h.2⟩
          rw [← hrest, List.takeWhile_append_dropWhile]
      · cases h

theorem colon_mem_of_isEncodedKey : ':' ∈ key := by
  obtain ⟨c, source, digits, rfl, -⟩ := exists_parts_of_isEncodedKey h
  simp

theorem isWordChar_of_isEncodedKey {c : Char} (hc : c ∈ key) : Text.IsWordChar c := by
  obtain ⟨first, source, digits, rfl, hletter, hsource, hdigits⟩ := exists_parts_of_isEncodedKey h
  simp only [List.mem_cons, List.mem_append] at hc
  rcases hc with rfl | hc | rfl | hc
  · exact .inl (Text.isAsciiAlphanumeric_iff.mpr (.inl hletter))
  · have hc := hsource c hc
    simp only [isAliasChar, Bool.or_eq_true, beq_iff_eq] at hc
    rcases hc with ((hc | rfl) | rfl) | rfl
    · exact .inl hc
    all_goals exact .inr (.inr (by decide))
  · exact .inr (.inr (by decide))
  · exact .inr (.inl (hdigits c hc))

theorem isWord_of_isEncodedKey : key.IsWord :=
  .of_forall (List.ne_nil_of_mem (colon_mem_of_isEncodedKey h)) fun _ =>
    isWordChar_of_isEncodedKey h

end EncodedKeys

theorem Guid.IsHyphenated.isWord_braced {t : Text} (h : IsHyphenated t) (opened closed : Nat) :
    (braced opened closed t).IsWord := by
  have hne : t ≠ [] :=
    List.ne_nil_of_mem (List.count_pos_iff.mp (Nat.zero_lt_of_lt h.count_hyphen))
  refine .of_forall (by simp [braced, hne]) fun c hc => ?_
  rcases mem_braced hc with rfl | hc | rfl
  · exact .inr (.inr (by decide))
  · rcases h.isHexDigit_or hc with hdigit | rfl
    · exact .inl (isAsciiAlphanumeric_of_isHexDigit hdigit)
    · exact .inr (.inr (by decide))
  · exact .inr (.inr (by decide))

theorem Guid.IsHyphenated.isEncodedKey_braced {t : Text} (h : IsHyphenated t)
    (opened closed : Nat) : isEncodedKey (braced opened closed t) = false := by
  rw [← Bool.not_eq_true]
  intro hkey
  rcases mem_braced (colon_mem_of_isEncodedKey hkey) with hc | hc | hc
  · exact absurd hc (by decide)
  · rcases h.isHexDigit_or hc with hdigit | hc
    · exact absurd hdigit (by decide)
    · exact absurd hc (by decide)
  · exact absurd hc (by decide)

/-! ## One row -/

/-- One series under a name of its own. -/
def Targets.single (key display : Text) : Targets := ⟨[⟨key, display, false⟩], []⟩

namespace Resolver

/-- A row of the default table with a key and an identifier that no row before it has. -/
structure IsNamed (catalog : Catalog) (layout : Layout) (row : Fields) (key uuid : Text) :
    Prop where
  rows : ∃ before after, catalog.rows? layout.table = some (before ++ row :: after)
    ∧ ∀ other ∈ before,
      (Predicate.compare layout.keyField .equal key).holds catalog.libraries.regex other = false
        ∧ (Predicate.compare layout.signalField .equal uuid).holds catalog.libraries.regex other
          = false
  keyField : Text.IsIdentifier layout.keyField
  signalField : Text.IsIdentifier layout.signalField
  key_eq : row.get? layout.keyField = some key
  isEncodedKey : isEncodedKey key = true
  uuid_eq : row.get? layout.signalField = some uuid
  isHyphenated : Guid.IsHyphenated uuid

/-- A text that is one clause, which selects one row. -/
def SelectsOnly (catalog : Catalog) (row : Fields) (text : Text) : Prop :=
  ∃ clause s, Text.targets text = [clause] ∧ Selection.parse? clause = some (.ok s)
    ∧ catalog.select s.table s.predicate s.order s.take = .ok [row]

/-- The key of a row, all spellings of its identifier and all clauses that select it are resolved
to the same series under the same name. -/
def NamesAgree (catalog : Catalog) (layout : Layout) (row : Fields) (key uuid : Text) : Prop :=
  ∃ display, resolve catalog layout key = .ok (.single key display)
    ∧ (∀ spelled opened closed, Text.sameLetters spelled uuid = true →
      resolve catalog layout (Guid.braced opened closed spelled) = .ok (.single key display))
    ∧ ∀ text, SelectsOnly catalog row text →
      resolve catalog layout text = .ok (.single key display)

/-- The name of the series of a row: its tag, or the key where the tag is missing or empty. -/
def shownName (layout : Layout) (row : Fields) (key : Text) : Text :=
  ((row.get? layout.tagField).filter (!·.isEmpty)).getD key

variable {catalog : Catalog} {layout : Layout} {row : Fields} {key uuid : Text}

theorem seriesOfRow?_eq (hkey : row.get? layout.keyField = some key) (hne : key ≠ []) :
    seriesOfRow? layout row = some (key, shownName layout row key) := by
  rw [seriesOfRow?, hkey, shownName]
  cases row.get? layout.tagField with
  | none => simp [hne]
  | some tag => cases tag <;> simp [hne, Option.filter]

/-- Only where the tag is there and empty it is not the name that a key is given for it. -/
theorem getD_eq_shownName_iff (hne : key ≠ []) :
    (row.get? layout.tagField).getD key = shownName layout row key
      ↔ row.get? layout.tagField ≠ some [] := by
  rw [shownName]
  cases row.get? layout.tagField with
  | none => simp
  | some tag => cases tag <;> simp [hne.symm, Option.filter]

theorem resolve_of_single {text token display : Text} (htargets : Text.targets text = [token])
    (halias : aliasAndTarget token = (none, token))
    (htoken : resolveToken catalog layout token = .ok [(key, display)]) :
    resolve catalog layout text = .ok (.single key display) := by
  unfold resolve
  rw [htargets, resolveFrom, halias]
  dsimp only
  rw [htoken]
  rfl

theorem rowWith?_of_first {field value : Text} {before after : List Fields}
    (hrows : catalog.rows? layout.table = some (before ++ row :: after))
    (hfield : Text.IsIdentifier field)
    (hbefore : ∀ other ∈ before,
      (Predicate.compare field .equal value).holds catalog.libraries.regex other = false)
    (hrow : (Predicate.compare field .equal value).holds catalog.libraries.regex row = true) :
    rowWith? catalog layout field value = some row := by
  have hnone : before.find? (fun other =>
      (Predicate.compare field .equal value).holds catalog.libraries.regex other) = none := by
    simpa using hbefore
  rw [rowWith?, Catalog.lookup_equalsText hrows hfield, List.find?_append, hnone, Option.none_or,
    List.find?_cons, hrow]

theorem holds_of_get? {lib : RegexLibrary} {field value : Text}
    (hvalue : row.get? field = some value) (hnumber : readFloat? (Text.trim value) = none) :
    (Predicate.compare field .equal value).holds lib row = true := by
  simp [Predicate.holds, hvalue, compareTexts_eq_order value hnumber, Text.order_self,
    Comparison.accepts]

namespace IsNamed

variable (h : IsNamed catalog layout row key uuid)

include h

theorem key_ne_nil : key ≠ [] := (isWord_of_isEncodedKey h.isEncodedKey).ne_nil

theorem seriesOfRow?_eq : seriesOfRow? layout row = some (key, shownName layout row key) :=
  Resolver.seriesOfRow?_eq h.key_eq h.key_ne_nil

theorem rowWith?_key : rowWith? catalog layout layout.keyField key = some row := by
  obtain ⟨before, after, hrows, hbefore⟩ := h.rows
  refine rowWith?_of_first hrows h.keyField (fun other ho => (hbefore other ho).1)
    (holds_of_get? h.key_eq ?_)
  rw [Text.trim_of_forall (isWord_of_isEncodedKey h.isEncodedKey).isBlank]
  exact readFloat?_of_colon (colon_mem_of_isEncodedKey h.isEncodedKey)

/-- The canonical form of the identifier finds the row that has it in any letter case. -/
theorem rowWith?_uuid :
    rowWith? catalog layout layout.signalField (Text.asciiLower uuid) = some row := by
  obtain ⟨before, after, hrows, hbefore⟩ := h.rows
  have hholds : ∀ (lib : RegexLibrary) (other : Fields),
      (Predicate.compare layout.signalField .equal (Text.asciiLower uuid)).holds lib other
        = (Predicate.compare layout.signalField .equal uuid).holds lib other := by
    intro lib other
    simp only [Predicate.holds, h.isHyphenated.compareTexts_asciiLower]
  refine rowWith?_of_first hrows h.signalField (fun other ho => ?_) ?_
  · rw [hholds]
    exact (hbefore other ho).2
  · rw [hholds]
    exact holds_of_get? h.uuid_eq h.isHyphenated.readFloat?_trim

theorem resolve_key : resolve catalog layout key
    = .ok (.single key ((row.get? layout.tagField).getD key)) := by
  have hword := isWord_of_isEncodedKey h.isEncodedKey
  refine resolve_of_single hword.targets_eq hword.aliasAndTarget_eq ?_
  rw [resolveToken, hword.parse?_eq]
  dsimp only
  rw [if_pos h.isEncodedKey, h.rowWith?_key]
  rfl

theorem resolve_uuid (hguids : catalog.libraries.ReadsGuids) {spelled : Text}
    (hspelled : Text.sameLetters spelled uuid = true) (opened closed : Nat) :
    resolve catalog layout (Guid.braced opened closed spelled)
      = .ok (.single key (shownName layout row key)) := by
  have hform := h.isHyphenated.of_sameLetters hspelled
  have hlower : Text.asciiLower spelled = Text.asciiLower uuid := eq_of_beq hspelled
  have hword := hform.isWord_braced opened closed
  refine resolve_of_single hword.targets_eq hword.aliasAndTarget_eq ?_
  rw [resolveToken, hword.parse?_eq]
  dsimp only
  rw [if_neg (by simp [hform.isEncodedKey_braced]), hform.guid?_braced hguids, hlower]
  dsimp only
  rw [h.rowWith?_uuid, Option.bind_some, h.seriesOfRow?_eq]
  rfl

theorem resolve_clause {text : Text} (hselects : SelectsOnly catalog row text) :
    resolve catalog layout text = .ok (.single key (shownName layout row key)) := by
  obtain ⟨clause, s, htargets, hparse, hselect⟩ := hselects
  have halias : aliasAndTarget clause = (none, clause) := by
    unfold aliasAndTarget
    split
    · simp [hparse]
    · rfl
  refine resolve_of_single htargets halias ?_
  rw [resolveToken, hparse]
  simp [bind, Except.bind, pure, Except.pure, hselect, h.seriesOfRow?_eq]

theorem namesAgree_iff (hguids : catalog.libraries.ReadsGuids) :
    NamesAgree catalog layout row key uuid ↔ row.get? layout.tagField ≠ some [] := by
  rw [← getD_eq_shownName_iff h.key_ne_nil]
  constructor
  · rintro ⟨display, hkey, huuid, -⟩
    have hsame := huuid uuid 0 0 (beq_self_eq_true _)
    rw [h.resolve_uuid hguids (beq_self_eq_true _)] at hsame
    rw [h.resolve_key] at hkey
    simp only [Except.ok.injEq, Targets.single, Targets.mk.injEq, List.cons.injEq, Target.mk.injEq,
      true_and, and_true] at hkey hsame
    rw [hkey, hsame]
  · intro hshown
    exact ⟨shownName layout row key, hshown ▸ h.resolve_key,
      fun _ opened closed hs => h.resolve_uuid hguids hs opened closed, fun _ => h.resolve_clause⟩

end IsNamed

/-- What each of the names of a row is resolved to. They are resolved to the same unless the row
has an empty tag. -/
theorem row_names_agree (hguids : catalog.libraries.ReadsGuids)
    (h : IsNamed catalog layout row key uuid) :
    resolve catalog layout key = .ok (.single key ((row.get? layout.tagField).getD key))
      ∧ (∀ spelled opened closed, Text.sameLetters spelled uuid = true →
        resolve catalog layout (Guid.braced opened closed spelled)
          = .ok (.single key (shownName layout row key)))
      ∧ (∀ text, SelectsOnly catalog row text →
        resolve catalog layout text = .ok (.single key (shownName layout row key)))
      ∧ (NamesAgree catalog layout row key uuid ↔ row.get? layout.tagField ≠ some []) :=
  ⟨h.resolve_key, fun _ opened closed hspelled => h.resolve_uuid hguids hspelled opened closed,
    fun _ => h.resolve_clause, h.namesAgree_iff hguids⟩

theorem row_names_agree_tagged :
    let other : Fields := ⟨[(Text.of "ID", Text.of "PPA:2"), (Text.of "PointTag", []),
      (Text.of "SignalID", Text.of "6b1f8a2c-3d4e-4f50-8a6b-7c8d9e0f1a2c")]⟩
    let row : Fields := ⟨[(Text.of "ID", Text.of "PPA:1"), (Text.of "PointTag", Text.of "FREQ"),
      (Text.of "SignalID", Text.of "6b1f8a2c-3d4e-4f50-8a6b-7c8d9e0f1a2b")]⟩
    let catalog : Catalog := ⟨[(Text.of "ActiveMeasurements", [other, row])], .standard⟩
    let layout : Layout := ⟨Text.of "ActiveMeasurements", Text.of "ID", Text.of "PointTag",
      Text.of "SignalID"⟩
    let uuid := Text.of "6b1f8a2c-3d4e-4f50-8a6b-7c8d9e0f1a2b"
    catalog.libraries.ReadsGuids ∧ IsNamed catalog layout row (Text.of "PPA:1") uuid
      ∧ SelectsOnly catalog row (Text.of "FILTER ActiveMeasurements WHERE ID = 'PPA:1'")
      ∧ NamesAgree catalog layout row (Text.of "PPA:1") uuid := by
  intro other row catalog layout uuid
  have hnamed : IsNamed catalog layout row (Text.of "PPA:1") uuid := {
    rows := by
      refine ⟨[other], [], rfl, fun o ho => ?_⟩
      rw [List.mem_singleton.mp ho]
      decide +kernel
    keyField := ⟨by decide, List.all_eq_true.mp (by decide)⟩
    signalField := ⟨by decide, List.all_eq_true.mp (by decide)⟩
    key_eq := by decide
    isEncodedKey := by decide
    uuid_eq := by decide
    isHyphenated := by decide }
  refine ⟨Guid.standard_readsGuids, hnamed, ?_,
    (row_names_agree Guid.standard_readsGuids hnamed).2.2.2.mpr (by decide)⟩
  exact ⟨Text.of "FILTER ActiveMeasurements WHERE ID = 'PPA:1'",
    ⟨Text.of "ActiveMeasurements", Text.of "ID = 'PPA:1'", none, none⟩, by decide +kernel,
    by decide +kernel, by decide +kernel⟩

/-- A row with an empty tag is shown under the empty text if it is named by its key, and under its
key otherwise. -/
theorem row_names_disagree_untagged :
    let row : Fields := ⟨[(Text.of "ID", Text.of "PPA:1"), (Text.of "PointTag", []),
      (Text.of "SignalID", Text.of "6b1f8a2c-3d4e-4f50-8a6b-7c8d9e0f1a2b")]⟩
    let catalog : Catalog := ⟨[(Text.of "ActiveMeasurements", [row])], .standard⟩
    let layout : Layout := ⟨Text.of "ActiveMeasurements", Text.of "ID", Text.of "PointTag",
      Text.of "SignalID"⟩
    let key := Text.of "PPA:1"
    let uuid := Text.of "6b1f8a2c-3d4e-4f50-8a6b-7c8d9e0f1a2b"
    IsNamed catalog layout row key uuid
      ∧ resolve catalog layout key = .ok (.single key [])
      ∧ resolve catalog layout (Text.of "\x7b6B1F8A2C-3D4E-4F50-8A6B-7C8D9E0F1A2B\x7d")
        = .ok (.single key key)
      ∧ resolve catalog layout (Text.of "FILTER ActiveMeasurements WHERE ID = 'PPA:1'")
        = .ok (.single key key)
      ∧ ¬ NamesAgree catalog layout row key uuid := by
  intro row catalog layout key uuid
  have hnamed : IsNamed catalog layout row key uuid := {
    rows := ⟨[], [], rfl, by simp⟩
    keyField := ⟨by decide, List.all_eq_true.mp (by decide)⟩
    signalField := ⟨by decide, List.all_eq_true.mp (by decide)⟩
    key_eq := by decide
    isEncodedKey := by decide
    uuid_eq := by decide
    isHyphenated := by decide }
  exact ⟨hnamed, by decide +kernel, by decide +kernel, by decide +kernel,
    fun hagree => (hnamed.namesAgree_iff Guid.standard_readsGuids).mp hagree (by decide)⟩

end Resolver

end SeriesQuery
