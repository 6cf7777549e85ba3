import SeriesQuery.Commands
import SeriesQuery.Proofs.DelimitedFields

/-!
# Commands taken out of an expression

An expression is cleaned of its commands in one of two ways. Where it has commands, what is left of
its segments is joined anew; where it has none, only semicolons and white space at its ends are
dropped. Both ways the targets are those that the expression has beside its commands. For the first
the reason is that splitting undoes joining; for the second, that a semicolon at an end has an empty
segment beside it. The scan must have closed everything by the end, for a semicolon that it meets
inside is a part of the last target.

What a command is, is said here by its spelling (`IsCommand`): a segment as a whole, so that no
word inside quotes or brackets is one.
-/

namespace SeriesQuery

namespace Text

open Nesting (outside)

/-! ## Semicolons around targets -/

theorem targets_append {a : Text} (h : outside.run a = outside) (t : Text) :
    targets (a ++ ';' :: t) = targets a ++ targets t := by
  unfold targets
  rw [fields_append_delimiter isDelimiter_semicolon h, List.filter_append]

/-- A text of semicolons alone. -/
def IsSemicolonRun (t : Text) : Prop := ∀ c ∈ t, (c == ';') = true

theorem run_semicolons (n : Nesting) {t : Text} (h : IsSemicolonRun t) : n.run t = n :=
  run_of_step fun c hc => by rw [beq_iff_eq.mp (h c hc), isDelimiter_semicolon.step_eq]

theorem targets_semicolons_append {lead : Text} (h : IsSemicolonRun lead) (t : Text) :
    targets (lead ++ t) = targets t := by
  induction lead with
  | nil => rfl
  | cons c lead ih =>
      obtain ⟨hc, hlead⟩ := List.forall_mem_cons.mp h
      rw [beq_iff_eq.mp hc, List.cons_append]
      exact (targets_append (a := []) rfl _).trans (ih hlead)

/-- Semicolons behind a closed text add no target. -/
theorem targets_append_semicolons {t : Text} (h : outside.run t = outside) {tail : Text}
    (htail : IsSemicolonRun tail) : targets (t ++ tail) = targets t := by
  cases tail with
  | nil => rw [List.append_nil]
  | cons c tail =>
      obtain ⟨hc, htail⟩ := List.forall_mem_cons.mp htail
      have hnone : targets tail = [] := by
        rw [← List.append_nil tail, targets_semicolons_append htail]
        rfl
      rw [beq_iff_eq.mp hc, targets_append h, hnone, List.append_nil]

/-- The semicolons around a closed text add no target. -/
theorem targets_stripWhile {t : Text} (h : outside.run t = outside) :
    targets (stripWhile (· == ';') t) = targets t := by
  obtain ⟨lead, tail, hlead, htail, ht⟩ := exists_around_stripWhile (· == ';') t
  generalize stripWhile (· == ';') t = inner at ht ⊢
  rw [ht, run_append, run_semicolons _ hlead, run_append, run_semicolons _ htail] at h
  rw [ht, targets_semicolons_append hlead, targets_append_semicolons h htail]

/-- Targets that are joined are found again. -/
theorem targets_join {l : List Text} (h : ∀ s ∈ l, s ≠ [] ∧ trim s = s ∧ Sealed ';' s) :
    targets (join (';' :: [' ']) l) = l := by
  by_cases hl : l = []
  · rw [hl]
    rfl
  · have hdelimited := delimited_of_sealed isDelimiter_semicolon hl fun s hs => (h s hs).2.2
    unfold targets
    rw [hdelimited.fields_join isDelimiter_semicolon isBlankRun_space fun s hs => (h s hs).2.1]
    refine List.filter_eq_self.mpr fun s hs => ?_
    simpa using (h s hs).1

theorem mem_targets {t s : Text} : s ∈ targets t ↔ s ∈ fields ';' t ∧ s ≠ [] := by
  unfold targets
  rw [List.mem_filter]
  simp

/-- The targets of a closed text can be joined. -/
theorem sealed_of_mem_targets {t s : Text} (h : outside.run t = outside) (hs : s ∈ targets t) :
    s ≠ [] ∧ trim s = s ∧ Sealed ';' s := by
  obtain ⟨hmem, hne⟩ := mem_targets.mp hs
  exact ⟨hne, trim_of_mem_fields hmem,
    ((delimited_fields isDelimiter_semicolon t).sealed isDelimiter_semicolon).2 h s hmem⟩

/-! ## Words inside -/

/-- A word that stands inside quotes or brackets from its first character to its last. -/
def Enclosed (before word : Text) : Prop :=
  ∀ front, front <+: word → outside.run (before ++ front) ≠ outside

theorem not_isBlankRun {n : Nesting} {t : Text} (h : n.run t ≠ n) : ¬IsBlankRun t :=
  fun hblank => h (run_blanks n hblank)

theorem dropWhile_append_of_not_blank {x : Text} (hx : ¬IsBlankRun x) (t : Text) :
    x.dropWhile isBlank ≠ [] ∧ (x ++ t).dropWhile isBlank = x.dropWhile isBlank ++ t := by
  have hne : x.dropWhile isBlank ≠ [] := fun h => hx (List.dropWhile_eq_nil_iff.mp h)
  refine ⟨hne, ?_⟩
  rw [List.dropWhile_append, if_neg (by simpa using hne)]

/-- Trimming takes nothing from the midst of a text. -/
theorem exists_trim_eq {x y : Text} (hx : ¬IsBlankRun x) (hy : ¬IsBlankRun y) (word : Text) :
    ∃ x' y', x' ≠ [] ∧ y' ≠ [] ∧ trim (x ++ (word ++ y)) = x' ++ (word ++ y') := by
  have hback : ¬IsBlankRun y.reverse := fun h => hy fun c hc => h c (List.mem_reverse.mpr hc)
  obtain ⟨hfront, htrim⟩ := dropWhile_append_of_not_blank hx (word ++ y)
  obtain ⟨hend, htrimEnd⟩ :=
    dropWhile_append_of_not_blank hback (x.dropWhile isBlank ++ word).reverse
  refine ⟨x.dropWhile isBlank, (y.reverse.dropWhile isBlank).reverse, hfront,
    fun h => hend (List.reverse_eq_nil_iff.mp h), ?_⟩
  unfold trim stripWhile dropEndWhile
  rw [htrim, ← List.append_assoc, List.reverse_append, htrimEnd, List.reverse_append,
    List.reverse_reverse, List.append_assoc]

/-- A word inside is in the midst of a field. -/
theorem Enclosed.exists_field {d : Char} (hd : IsDelimiter d) {before word after : Text}
    (hin : Enclosed before word) (hout : outside.run (before ++ (word ++ after)) = outside) :
    ∃ x y, x ≠ [] ∧ y ≠ [] ∧ x ++ (word ++ y) ∈ fields d (before ++ (word ++ after)) := by
  by_cases hone : ∃ a b, before ++ (word ++ after) = a ++ d :: b ∧ outside.run a = outside
  · -- A delimiter met outside is before the word or after it. The field is on the other side.
    obtain ⟨a, b, hsplit, ha⟩ := hone
    rcases List.append_eq_append_iff.mp hsplit with ⟨front, rfl, hrest⟩ | ⟨rest, rfl, hrest⟩
    · rcases List.append_eq_append_iff.mp hrest with ⟨between, rfl, rfl⟩ | ⟨back, rfl, -⟩
      · obtain ⟨x, y, hx, hy, hmem⟩ := Enclosed.exists_field hd hin ha
        refine ⟨x, y, hx, hy, ?_⟩
        rw [hsplit, fields_append_delimiter hd ha]
        exact List.mem_append_left _ hmem
      · exact absurd ha (hin front (List.prefix_append front back))
    · cases rest with
      | nil =>
          have hstart := hin [] List.nil_prefix
          rw [List.append_nil, List.append_nil] at hstart
          exact absurd ha hstart
      | cons c rest =>
          obtain ⟨rfl, rfl⟩ := List.cons.inj hrest
          have hrun : ∀ t, outside.run (a ++ d :: rest ++ t) = outside.run (rest ++ t) := by
            intro t
            rw [List.append_assoc, run_append, ha]
            exact congrArg (Nesting.run · (rest ++ t)) (hd.step_eq outside)
          have hin' : Enclosed rest word := fun front hfront => by
            rw [← hrun]
            exact hin front hfront
          rw [hrun] at hout
          obtain ⟨x, y, hx, hy, hmem⟩ := Enclosed.exists_field hd hin' hout
          refine ⟨x, y, hx, hy, ?_⟩
          rw [hsplit, fields_append_delimiter hd ha]
          exact List.mem_append_right _ hmem
  · have hraw : rawFields d outside (before ++ (word ++ after)) = [before ++ (word ++ after)] :=
      (rawFields_eq_singleton_iff hd).mpr fun a b h ha => hone ⟨a, b, h, ha⟩
    have hstart := hin [] List.nil_prefix
    rw [List.append_nil] at hstart
    have hend := hin word (List.prefix_refl word)
    have hback : (outside.run (before ++ word)).run after ≠ outside.run (before ++ word) := by
      rw [← run_append, List.append_assoc, hout]
      exact hend.symm
    obtain ⟨x, y, hx, hy, htrim⟩ :=
      exists_trim_eq (not_isBlankRun hstart) (not_isBlankRun hback) word
    refine ⟨x, y, hx, hy, ?_⟩
    rw [fields, hraw, List.map_singleton, htrim]
    exact List.mem_singleton_self _
termination_by before.length + after.length

end Text

namespace Commands

open Text.Nesting (outside)

/-! ## What a command is -/

/-- The commands that are a word. -/
def wordNames : List Text :=
  [.of "DropEmptySeries", .of "IncludePeaks", .of "FullResolutionQuery", .of "FullResolutionData"]

/-- The commands with a list in braces. -/
def bracedNames : List Text := [.of "Imports", .of "RadialDistribution"]

/-- The texts that are a command. -/
inductive IsCommand : Text → Prop
  /-- A word in any letter case. -/
  | word {name segment : Text} : name ∈ wordNames → Text.sameFolded name segment = true →
      IsCommand segment
  /-- A name in any letter case with a list on one line. -/
  | braced {name word gap gap' body : Text} : name ∈ bracedNames →
      Text.sameFolded name word = true → Text.IsBlankRun gap → Text.IsBlankRun gap' →
      '\n' ∉ body → IsCommand (word ++ (gap ++ '=' :: (gap' ++ '{' :: (body ++ ['}']))))

theorem afterFolded?_eq_some {name t rest : Text} : Text.afterFolded? name t = some rest
    ↔ ∃ word, t = word ++ rest ∧ Text.sameFolded name word = true := by
  induction name generalizing t with
  | nil =>
      constructor
      · intro h
        exact ⟨[], Option.some.inj h, rfl⟩
      · rintro ⟨word, rfl, hword⟩
        cases word with
        | nil => rfl
        | cons c word => cases hword
  | cons w name ih =>
      cases t with
      | nil =>
          constructor
          · intro h
            cases h
          · rintro ⟨word, h, hword⟩
            rw [(List.nil_eq_append_iff.mp h).1] at hword
            cases hword
      | cons c t =>
          rw [Text.afterFolded?]
          constructor
          · intro h
            split at h
            · next hc =>
                obtain ⟨word, rfl, hword⟩ := ih.mp h
                refine ⟨c :: word, rfl, ?_⟩
                simp only [Text.sameFolded, List.map_cons, beq_iff_eq] at hword hc ⊢
                rw [hc, hword]
            · cases h
          · rintro ⟨word, h, hword⟩
            cases word with
            | nil => cases hword
            | cons c' word =>
                obtain ⟨rfl, rfl⟩ := List.cons.inj h
                simp only [Text.sameFolded, List.map_cons, beq_iff_eq, List.cons.injEq] at hword
                rw [if_pos (beq_iff_eq.mpr hword.1)]
                exact ih.mpr ⟨word, rfl, beq_iff_eq.mpr hword.2⟩

theorem trimStart_blanks_append {gap : Text} (h : Text.IsBlankRun gap) (c : Char)
    (hc : Text.isBlank c = false) (rest : Text) :
    Text.trimStart (gap ++ c :: rest) = c :: rest := by
  rw [Text.trimStart, List.dropWhile_append_of_pos h, List.dropWhile_cons, hc]
  rfl

theorem exists_blanks_of_trimStart {t inner : Text} (h : Text.trimStart t = inner) :
    ∃ gap, Text.IsBlankRun gap ∧ t = gap ++ inner := by
  refine ⟨t.takeWhile Text.isBlank, fun c hc => List.mem_takeWhile_imp hc, ?_⟩
  rw [← h, Text.trimStart, List.takeWhile_append_dropWhile]

theorem braced?_eq_some {name segment body : Text} : braced? name segment = some body ↔
    ∃ word gap gap', Text.sameFolded name word = true ∧ Text.IsBlankRun gap
      ∧ Text.IsBlankRun gap' ∧ '\n' ∉ body
      ∧ segment = word ++ (gap ++ '=' :: (gap' ++ '{' :: (body ++ ['}']))) := by
  unfold braced?
  simp only [Option.bind_eq_bind, Option.bind_eq_some_iff, afterFolded?_eq_some]
  constructor
  · rintro ⟨rest, ⟨word, rfl, hword⟩, h⟩
    split at h
    · next inner hequals =>
        obtain ⟨gap, hgap, rfl⟩ := exists_blanks_of_trimStart hequals
        split at h
        · next list hbrace =>
            obtain ⟨gap', hgap', rfl⟩ := exists_blanks_of_trimStart hbrace
            split at h
            · next hlist =>
                simp only [Bool.and_eq_true, beq_iff_eq, Bool.not_eq_true', ← Bool.not_eq_true,
                  List.contains_iff_mem] at hlist
                obtain ⟨body', rfl⟩ := List.getLast?_eq_some_iff.mp hlist.1
                rw [List.dropLast_concat] at h hlist
                cases h
                exact ⟨word, gap, gap', hword, hgap, hgap', hlist.2, rfl⟩
            · cases h
        · cases h
    · cases h
  · rintro ⟨word, gap, gap', hword, hgap, hgap', hbody, rfl⟩
    refine ⟨_, ⟨word, rfl, hword⟩, ?_⟩
    have hline : (body.contains '\n') = false := by
      rw [← Bool.not_eq_true, List.contains_iff_mem]
      exact hbody
    rw [trimStart_blanks_append hgap '=' (by decide)]
    simp only [trimStart_blanks_append hgap' '{' (by decide), List.getLast?_concat,
      List.dropLast_concat, hline]
    rfl

theorem isSome_take?_eq (c : Commands) (segment : Text) : (c.take? segment).isSome
    = (wordNames.any (Text.sameFolded · segment)
      || bracedNames.any fun name => (braced? name segment).isSome) := by
  unfold take? wordNames bracedNames
  simp only [List.any_cons, List.any_nil]
  cases Text.sameFolded (.of "DropEmptySeries") segment with
  | true => rfl
  | false =>
  cases Text.sameFolded (.of "IncludePeaks") segment with
  | true => rfl
  | false =>
  cases Text.sameFolded (.of "FullResolutionQuery") segment with
  | true => rfl
  | false =>
  cases Text.sameFolded (.of "FullResolutionData") segment with
  | true => rfl
  | false => cases braced? (.of "Imports") segment <;> simp

/-- A segment is taken in exactly if it is a command, whatever was taken in before. -/
theorem isSome_take? (c : Commands) (segment : Text) :
    (c.take? segment).isSome = true ↔ IsCommand segment := by
  rw [isSome_take?_eq, Bool.or_eq_true, List.any_eq_true, List.any_eq_true]
  constructor
  · rintro (⟨name, hname, hword⟩ | ⟨name, hname, hbraced⟩)
    · exact .word hname hword
    · obtain ⟨body, hbody⟩ := Option.isSome_iff_exists.mp hbraced
      obtain ⟨word, gap, gap', hword, hgap, hgap', hline, rfl⟩ := braced?_eq_some.mp hbody
      exact .braced hname hword hgap hgap' hline
  · intro h
    cases h with
    | word hname hword => exact .inl ⟨_, hname, hword⟩
    | braced hname hword hgap hgap' hline =>
        have hbody := braced?_eq_some.mpr ⟨_, _, _, hword, hgap, hgap', hline, rfl⟩
        exact .inr ⟨_, hname, Option.isSome_iff_exists.mpr ⟨_, hbody⟩⟩

instance : DecidablePred IsCommand := fun segment =>
  decidable_of_iff _ (isSome_take? none segment)

theorem take?_eq_none {c : Commands} {segment : Text} :
    c.take? segment = Option.none ↔ ¬IsCommand segment := by
  rw [← isSome_take? c, Option.not_isSome_iff_eq_none]

/-- The commands with a segment taken in, or as they are if it is none. -/
def taking (c : Commands) (segment : Text) : Commands := (c.take? segment).getD c

/-! ## Sorting segments -/

/-- The commands are those of the segments that are one, and the others are kept. -/
theorem sortOut_eq (c : Commands) (segments : List Text) : sortOut c segments
    = ((segments.filter IsCommand).foldl taking c,
      segments.filter fun s => s ≠ [] ∧ ¬IsCommand s) := by
  induction segments generalizing c with
  | nil => rfl
  | cons s segments ih =>
      rw [sortOut]
      cases htake : c.take? s with
      | some c' =>
          have hs : IsCommand s := (isSome_take? c s).mp (by rw [htake]; rfl)
          have htaking : taking c s = c' := by rw [taking, htake]; rfl
          simp [ih, hs, htaking]
      | none =>
          have hs : ¬IsCommand s := take?_eq_none.mp htake
          cases s with
          | nil => simp [ih, hs]
          | cons a s => simp [ih, hs]

/-- The segments that are no command, without the empty ones. -/
def others (t : Text) : List Text := (Text.fields ';' t).filter fun s => s ≠ [] ∧ ¬IsCommand s

theorem others_eq (t : Text) : others t = (Text.targets t).filter (¬IsCommand ·) := by
  unfold others Text.targets
  rw [List.filter_filter]
  refine List.filter_congr fun s _ => ?_
  cases s <;> simp

theorem extract_eq (expression : Text) : extract expression
    = (((Text.fields ';' expression).filter IsCommand).foldl taking none,
      if ∃ s ∈ Text.fields ';' expression, IsCommand s then
        Text.join semicolon (others expression)
      else Text.trim (Text.stripWhile (· == ';') (Text.trim expression))) := by
  have hany : ((Text.fields ';' expression).any fun s => (none.take? s).isSome) = true
      ↔ ∃ s ∈ Text.fields ';' expression, IsCommand s := by
    simp only [List.any_eq_true, isSome_take?]
  unfold extract
  simp only [sortOut_eq, hany]
  split <;> rfl

/-- The targets of a closed expression without its commands are those it has beside them. -/
theorem targets_extract_snd {expression : Text} (h : outside.run expression = outside) :
    Text.targets (extract expression).2 = others expression := by
  rw [extract_eq]
  show Text.targets (if _ then _ else _) = _
  split
  · refine Text.targets_join fun s hs => Text.sealed_of_mem_targets h ?_
    rw [others_eq] at hs
    exact (List.mem_filter.mp hs).1
  · next hnone =>
      have hall : ∀ s ∈ Text.targets expression, decide (¬IsCommand s) = true := fun s hs =>
        decide_eq_true fun hcommand => hnone ⟨s, (Text.mem_targets.mp hs).1, hcommand⟩
      have htrim : outside.run (Text.trim expression) = outside := (Text.run_trim _ _).trans h
      rw [Text.targets_trim, Text.targets_stripWhile htrim, Text.targets_trim, others_eq,
        List.filter_eq_self.mpr hall]

theorem not_isCommand_of_targets {t s : Text} (h : ∀ s ∈ Text.targets t, ¬IsCommand s)
    (hs : s ∈ Text.fields ';' t) : ¬IsCommand s := by
  by_cases hne : s = []
  · rw [hne]
    decide
  · exact h s (Text.mem_targets.mpr ⟨hs, hne⟩)

/-! ## Extraction -/

/-- Taking the commands out of a closed expression keeps every other segment, as it is and in its
place, and leaves no command behind. What is found depends on the segments that are a command alone.
A word inside quotes or brackets is never such a segment but in the midst of one, which is kept
unless it is a command as a whole. -/
theorem extract_keeps_targets {expression : Text} (h : outside.run expression = outside) :
    Text.targets (extract expression).2
        = ((Text.fields ';' expression).filter fun s => s ≠ [] ∧ ¬IsCommand s)
      ∧ (extract expression).1
        = ((Text.fields ';' expression).filter IsCommand).foldl taking none
      ∧ (∀ s ∈ Text.fields ';' (extract expression).2, ¬IsCommand s)
      ∧ (extract (extract expression).2).1 = none
      ∧ ∀ before word after, expression = before ++ (word ++ after) →
        Text.Enclosed before word → ∃ x y, x ≠ [] ∧ y ≠ []
          ∧ x ++ (word ++ y) ∈ Text.fields ';' expression
          ∧ (IsCommand (x ++ (word ++ y))
            ∨ x ++ (word ++ y) ∈ Text.targets (extract expression).2) := by
  have htargets := targets_extract_snd h
  have hnone : ∀ s ∈ Text.fields ';' (extract expression).2, ¬IsCommand s := by
    refine fun s => not_isCommand_of_targets fun s hs => ?_
    rw [htargets, others_eq] at hs
    exact of_decide_eq_true (List.mem_filter.mp hs).2
  refine ⟨htargets, by rw [extract_eq], hnone, ?_, ?_⟩
  · rw [extract_eq, List.filter_eq_nil_iff.mpr fun s hs => by simpa using hnone s hs]
    rfl
  · rintro before word after rfl hword
    obtain ⟨x, y, hx, hy, hmem⟩ := hword.exists_field Text.isDelimiter_semicolon h
    refine ⟨x, y, hx, hy, hmem, or_iff_not_imp_left.mpr fun hcommand => ?_⟩
    have hne : x ++ (word ++ y) ≠ [] := List.append_ne_nil_of_left_ne_nil hx _
    rw [htargets]
    exact List.mem_filter.mpr ⟨hmem, decide_eq_true ⟨hne, hcommand⟩⟩

/-- Command words in a label and in a call, semicolons in braces and empty segments. -/
theorem extract_keeps_targets_label :
    let expression :=
      Text.of "; Label('a;IncludePeaks', X);; imports = {A; B}; Sum(B; IncludePeaks);"
    outside.run expression = outside
      ∧ Text.targets (extract expression).2
        = [Text.of "Label('a;IncludePeaks', X)", Text.of "Sum(B; IncludePeaks)"]
      ∧ (extract expression).1 = { none with imports := [Text.of "A", Text.of "B"] }
      ∧ (extract (extract expression).2).1 = none := by
  intro expression
  have hclosed : outside.run expression = outside := by decide +kernel
  obtain ⟨htargets, hcommands, -, hagain, -⟩ := extract_keeps_targets hclosed
  refine ⟨hclosed, htargets.trans ?_, hcommands.trans ?_, hagain⟩
  · decide +kernel
  · decide +kernel

end Commands

end SeriesQuery
