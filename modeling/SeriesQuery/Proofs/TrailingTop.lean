import SeriesQuery.Proofs.ClauseWords
import SeriesQuery.Proofs.PhrasePlaces

/-!
# The number of rows at the end of a clause

`TOP n` may end a clause, and `TOP` may stand anywhere before that: in the predicate, as a field, as
the table of another source. The tail of a clause is therefore searched for `TOP` again and again
from the front, until what stands there reaches to the end. Two facts come of it, each by induction
over the searches. What is found is a `TOP n` at the end; and where one is at the end, no earlier
place hides it, as an earlier `TOP` is followed by the later one.
-/

namespace SeriesQuery.Selection

open Text

/-- `TOP n` as it may be written. -/
structure TopText where
  word : Cased topWord
  gap : Gap
  count : Count

def TopText.text (top : TopText) : Text := top.word.text ++ (top.gap.text ++ top.count.digits)

/-- A text ends in `TOP n`, outside quotes and with no word going on into it. -/
def EndsInTop (t : Text) : Prop :=
  ∃ (before : Text) (top : TopText), t = before ++ top.text ∧ Stands [topWord] before top.text

theorem isLetters_topWord : IsLetters topWord := ⟨rfl⟩

theorem isPhrase_top : IsPhrase [topWord] := ⟨rfl, fun _ => rfl⟩

theorem TopText.isSolid (top : TopText) : IsSolid top.text :=
  (top.word.isSolid (by decide) isLetters_topWord).append top.count.isSolid top.gap.text

theorem not_endsInTop_of_getLast? {t : Text} {c : Char} (hlast : t.getLast? = some c)
    (hc : c.isDigit = false) : ¬ EndsInTop t := by
  rintro ⟨before, top, rfl, -⟩
  have hlast' : top.count.digits.getLast? = some c := by
    rwa [TopText.text, ← List.append_assoc, ← List.append_assoc,
      List.getLast?_append_of_ne_nil _ top.count.ne_nil] at hlast
  have hdigit := top.count.isDigit c (List.mem_of_getLast? hlast')
  rw [hc] at hdigit
  cases hdigit

/-! ## Reading one -/

theorem top?_text (top : TopText) {rest : Text} (hrest : ∀ c ∈ rest.head?, c.isDigit = false) :
    top? (top.text ++ rest) = some (top.count.value, skipSeparators rest) := by
  have htext : top.text ++ rest
      = top.word.text ++ (top.gap.text ++ (top.count.digits ++ rest)) := by
    simp [TopText.text]
  have hgap : afterSeparators? (top.gap.text ++ (top.count.digits ++ rest))
      = some (top.count.digits ++ rest) :=
    top.gap.afterSeparators?_eq top.count.isSolid.head?_append
  have hdigits : takeSome? Char.isDigit (top.count.digits ++ rest)
      = some (top.count.digits, rest) := by
    have hne : top.count.digits.isEmpty = false := List.isEmpty_eq_false_iff.mpr top.count.ne_nil
    simp only [takeSome?, takeWhile_append_of_head? top.count.isDigit hrest,
      dropWhile_append_of_head? top.count.isDigit hrest, hne, Bool.false_eq_true, if_false]
  have hreads := top.count.reads
  simp [top?, htext, top.word.afterWord?_eq, hgap, hdigits, hreads]

theorem exists_gap_of_afterSeparators? {t rest : Text} (h : afterSeparators? t = some rest) :
    ∃ gap : Gap, t = gap.text ++ rest := by
  cases t with
  | nil => cases h
  | cons c t =>
      rw [afterSeparators?] at h
      split at h
      · next hc =>
          cases h
          have hall : ∀ d ∈ c :: t.takeWhile isSeparator, isSeparator d = true := by
            intro d hd
            rcases List.mem_cons.mp hd with rfl | hd
            · exact hc
            · exact List.mem_takeWhile_imp hd
          exact ⟨⟨c :: t.takeWhile isSeparator, List.cons_ne_nil _ _, hall⟩,
            congrArg (c :: ·) (List.takeWhile_append_dropWhile ..).symm⟩
      · cases h

/-- What is read of a `TOP n`, and separators after it. -/
theorem exists_of_top? {t rest : Text} {n : Nat} (h : top? t = some (n, rest)) :
    ∃ (top : TopText) (more : Text), t = top.text ++ more ∧ top.count.value = n
      ∧ rest = skipSeparators more ∧ ∀ c ∈ more.head?, c.isDigit = false := by
  simp only [top?, Option.bind_eq_bind, Option.bind_eq_some_iff] at h
  obtain ⟨t2, ⟨t1, hword, hgap⟩, ⟨digits, t3⟩, htaken, value, hreads, heq⟩ := h
  cases heq
  obtain ⟨word, rfl⟩ := exists_cased_of_afterWord? hword
  obtain ⟨gap, rfl⟩ := exists_gap_of_afterSeparators? hgap
  simp only [takeSome?] at htaken
  split at htaken
  · cases htaken
  · cases htaken
    refine ⟨⟨word, gap, ⟨t2.takeWhile Char.isDigit, n, fun c hc => List.mem_takeWhile_imp hc,
      hreads⟩⟩, t2.dropWhile Char.isDigit, ?_, rfl, rfl, head?_dropWhile t2⟩
    simp [TopText.text, List.takeWhile_append_dropWhile]

/-- Where a text has no separator at its end, a `TOP n` with nothing behind it ends it. -/
theorem exists_text_of_top? {t : Text} {n : Nat} (h : top? t = some (n, []))
    (hlast : ∀ c ∈ t.getLast?, isSeparator c = false) :
    ∃ top : TopText, t = top.text ∧ top.count.value = n := by
  obtain ⟨top, more, rfl, hvalue, hskip, -⟩ := exists_of_top? h
  cases hmore : more.getLast? with
  | none =>
      obtain rfl := List.getLast?_eq_none_iff.mp hmore
      exact ⟨top, List.append_nil _, hvalue⟩
  | some c =>
      have hseparator := List.dropWhile_eq_nil_iff.mp hskip.symm c (List.mem_of_getLast? hmore)
      rw [hlast c (by simp [hmore])] at hseparator
      cases hseparator

/-! ## Where `TOP` stands -/

theorem phraseStarts_top {t : Text} : phraseStarts [topWord] t = true
    ↔ ∃ (word : Cased topWord) (rest : Text), t = word.text ++ rest
      ∧ ∀ c ∈ rest.head?, joinsWord c = false := by
  simp only [phraseStarts, afterPhrase?]
  constructor
  · intro h
    cases hword : afterWord? topWord t with
    | none =>
        rw [hword] at h
        cases h
    | some rest =>
        obtain ⟨word, rfl⟩ := exists_cased_of_afterWord? hword
        refine ⟨word, rest, rfl, fun c hc => ?_⟩
        obtain ⟨more, rfl⟩ := List.head?_eq_some_iff.mp hc
        rw [hword] at h
        simpa using h
  · rintro ⟨word, rest, rfl, hrest⟩
    rw [word.afterWord?_eq]
    cases rest with
    | nil => rfl
    | cons c rest => simp [hrest c rfl]

theorem TopText.starts (top : TopText) : phraseStarts [topWord] top.text = true := by
  refine phraseStarts_top.mpr ⟨top.word, top.gap.text ++ top.count.digits, rfl, fun c hc => ?_⟩
  exact joinsWord_of_isSeparator (top.gap.head?_append _ c hc)

theorem joinsWord_of_starts {t : Text} (h : phraseStarts [topWord] t = true) :
    ∃ c ∈ t.head?, joinsWord c = true := by
  obtain ⟨word, rest, rfl, -⟩ := phraseStarts_top.mp h
  have hlength := word.length_eq
  obtain ⟨c, more, hword⟩ :=
    List.exists_cons_of_length_pos (l := word.text) (by rw [hlength]; decide)
  have hletter := word.isAsciiLetter isLetters_topWord c (by simp [hword])
  exact ⟨c, by simp [hword], joinsWord_of_isAsciiLetter hletter⟩

theorem quote_not_mem_of_letters {t : Text} (h : ∀ c ∈ t, isAsciiLetter c = true) : '\'' ∉ t :=
  fun hmem => absurd (h '\'' hmem) (by decide)

/-! ## The searches -/

/-- What a search finds is cut off after the word, and the next one begins outside quotes. -/
theorem exists_of_found {t before found : Text}
    (h : splitAtKeyword? topWord t = some (before, found)) :
    ∃ (word : Cased topWord) (rest : Text), found = word.text ++ rest
      ∧ found.take 3 = word.text ∧ found.drop 3 = rest ∧ t = before ++ found
      ∧ Stands [topWord] before found ∧ ∀ c ∈ rest.head?, joinsWord c = false := by
  have hfirst := splitAtPhrase?_firstPlace isPhrase_top false false t
  rw [show splitAtPhrase? [topWord] false false t = some (before, found) from h] at hfirst
  obtain ⟨ht, hstands, -⟩ := hfirst
  obtain ⟨word, rest, rfl, hrest⟩ := phraseStarts_top.mp hstands.starts
  have hlength : word.text.length = 3 := word.length_eq
  refine ⟨word, rest, rfl, ?_, ?_, ht, hstands, hrest⟩
  · rw [← hlength, List.take_left]
  · rw [← hlength, List.drop_left]

/-- A place after `TOP` is a place of the whole text. -/
theorem stands_of_resumed {before rest more found : Text} {word : Cased topWord}
    (h : Stands [topWord] before (word.text ++ rest)) (hrest : rest = more ++ found)
    (hapart : ∀ c ∈ rest.head?, joinsWord c = false) (h' : Stands [topWord] more found) :
    Stands [topWord] (before ++ (word.text ++ more)) found where
  outside := by
    have hword := quote_not_mem_of_letters (word.isAsciiLetter isLetters_topWord)
    rw [quotedAfter_append, quotedAfter_append, h.outside, quotedAfter_of_not_mem hword]
    exact h'.outside
  apart := by
    cases hlast : more.getLast? with
    | none =>
        -- nothing begins right after the word, as no word goes on there
        rw [List.getLast?_eq_none_iff.mp hlast, List.nil_append] at hrest
        obtain ⟨c, hc, hjoins⟩ := joinsWord_of_starts h'.starts
        rw [hapart c (hrest ▸ hc)] at hjoins
        cases hjoins
    | some c =>
        have hapart' := h'.apart
        rw [touchedAfter_of_getLast? _ hlast] at hapart'
        rw [touchedAfter_append, touchedAfter_append, touchedAfter_of_getLast? _ hlast]
        exact hapart'
  starts := h'.starts

/-- What is found at the end is a `TOP n` that stands there. -/
theorem trailingTop?_sound {t before : Text} {n : Nat} (h : trailingTop? t = some (before, n)) :
    ∃ found, t = before ++ found ∧ Stands [topWord] before found ∧ top? found = some (n, []) := by
  induction ht : t.length using Nat.strongRecOn generalizing t before with
  | ind length ih =>
      subst ht
      rw [trailingTop?] at h
      split at h
      · cases h
      · next first found hsplit =>
          obtain ⟨word, rest, hfound, htake, hdrop, htext, hstands, hapart⟩ :=
            exists_of_found hsplit
          split at h
          · next hread =>
              cases h
              exact ⟨found, htext, hstands, hread⟩
          · obtain ⟨⟨more, value⟩, hmore, heq⟩ := Option.map_eq_some_iff.mp h
            cases heq
            rw [hdrop] at hmore
            have hshorter : rest.length < t.length := by
              have hlength : word.text.length = 3 := word.length_eq
              rw [htext, hfound]
              simp [hlength]
              omega
            obtain ⟨last, hrest, hlast, hread⟩ := ih rest.length hshorter hmore rfl
            rw [hfound] at hstands
            have hresumed := stands_of_resumed hstands hrest hapart hlast
            refine ⟨last, ?_, ?_, hread⟩
            · rw [htake, htext, hfound, hrest]
              simp
            · rw [htake, List.append_assoc]
              exact hresumed

theorem trailingTop?_eq_none {t : Text} (hlast : ∀ c ∈ t.getLast?, isSeparator c = false)
    (h : ¬ EndsInTop t) : trailingTop? t = none := by
  cases hread : trailingTop? t with
  | none => rfl
  | some found =>
      obtain ⟨last, rfl, hstands, htop⟩ := trailingTop?_sound hread
      have hne : last ≠ [] := by
        rintro rfl
        cases htop
      rw [List.getLast?_append_of_ne_nil _ hne] at hlast
      obtain ⟨top, rfl, -⟩ := exists_text_of_top? htop hlast
      exact absurd ⟨_, top, rfl, hstands⟩ h

/-- The keyword at the front of a text whose last character joins no word is all in the text. -/
theorem exists_of_cased_append {word : Cased topWord} {m rest tail : Text}
    (h : word.text ++ rest = m ++ tail) (hm : m ≠ [])
    (hlast : ∀ c ∈ m.getLast?, joinsWord c = false) :
    ∃ more, more ≠ [] ∧ m = word.text ++ more ∧ rest = more ++ tail := by
  have hin : ¬ m ⊆ word.text := by
    intro hsubset
    obtain ⟨c, hc⟩ := Option.isSome_iff_exists.mp (List.getLast?_isSome.mpr hm)
    have hletter := word.isAsciiLetter isLetters_topWord c
      (hsubset (List.mem_of_getLast? hc))
    have hjoins := hlast c hc
    rw [joinsWord_of_isAsciiLetter hletter] at hjoins
    cases hjoins
  rcases List.append_eq_append_iff.mp h with ⟨more, rfl, rfl⟩ | ⟨more, hword, -⟩
  · refine ⟨more, ?_, rfl, rfl⟩
    rintro rfl
    exact hin (by simp)
  · exact absurd (hword ▸ List.subset_append_left m more) hin

/-- A `TOP n` with another behind it does not reach to the end. -/
theorem top?_append_text_ne (top : TopText) {m : Text} (hm : m ≠ [])
    (hlast : ∀ c ∈ m.getLast?, joinsWord c = false) (n : Nat) :
    top? (m ++ top.text) ≠ some (n, []) := by
  intro hread
  have hend : ∀ c ∈ (m ++ top.text).getLast?, isSeparator c = false := by
    rw [List.getLast?_append_of_ne_nil _ top.isSolid.ne_nil]
    exact fun c hc => isSeparator_of_isBlank_eq_false (top.isSolid.last c hc)
  obtain ⟨first, htext, -⟩ := exists_text_of_top? hread hend
  obtain ⟨more, -, -, hrest⟩ := exists_of_cased_append htext.symm hm hlast
  -- a letter of the second keyword would be a separator or a digit
  obtain ⟨c, hc⟩ : ∃ c, c ∈ top.word.text := by
    have hlength := top.word.length_eq
    exact List.exists_mem_of_length_pos (by rw [hlength]; decide)
  have hletter := top.word.isAsciiLetter isLetters_topWord c hc
  have hmem : c ∈ first.gap.text ++ first.count.digits := by
    rw [hrest]
    simp [TopText.text, hc]
  rcases List.mem_append.mp hmem with hgap | hdigits
  · have hseparator := first.gap.isSeparator c hgap
    rw [isSeparator_of_isBlank_eq_false (isBlank_of_isAsciiLetter hletter)] at hseparator
    cases hseparator
  · have hdigit := first.count.isDigit c hdigits
    rw [isDigit_of_isAsciiLetter hletter] at hdigit
    cases hdigit

/-- A `TOP n` at the end is found, whatever stands before it. -/
theorem trailingTop?_text (top : TopText) {before : Text}
    (hquoted : quotedAfter false before = false) (htouched : touchedAfter false before = false) :
    trailingTop? (before ++ top.text) = some (before, top.count.value) := by
  induction hlength : before.length using Nat.strongRecOn generalizing before with
  | ind length ih =>
      subst hlength
      have hstands : Stands [topWord] before top.text := ⟨hquoted, htouched, top.starts⟩
      have hread : top? (top.text ++ []) = some (top.count.value, []) := top?_text top nofun
      rw [List.append_nil] at hread
      have hfirst := splitAtPhrase?_firstPlace isPhrase_top false false (before ++ top.text)
      rw [trailingTop?]
      split
      · next hsplit =>
          rw [show splitAtPhrase? [topWord] false false (before ++ top.text) = none from hsplit]
            at hfirst
          exact absurd hstands (hfirst before top.text rfl)
      · next first found hsplit =>
          rw [show splitAtPhrase? [topWord] false false (before ++ top.text) = some (first, found)
            from hsplit] at hfirst
          obtain ⟨more, rfl, rfl⟩ := hfirst.exists_middle hstands rfl
          obtain ⟨word, rest, hfound, htake, hdrop, -, hplace, -⟩ := exists_of_found hsplit
          by_cases hmore : more = []
          · subst hmore
            simp only [List.nil_append, hread, List.append_nil]
          · have hlast : ∀ c ∈ more.getLast?, joinsWord c = false := by
              intro c hc
              have hend : (first ++ more).getLast? = some c :=
                (List.getLast?_append_of_ne_nil first hmore).trans hc
              rwa [touchedAfter_of_getLast? false hend] at htouched
            obtain ⟨inner, hne, rfl, hrest⟩ := exists_of_cased_append hfound.symm hmore hlast
            have hword := quote_not_mem_of_letters (word.isAsciiLetter isLetters_topWord)
            rw [quotedAfter_append, quotedAfter_append, hplace.outside,
              quotedAfter_of_not_mem hword] at hquoted
            have htouched' : touchedAfter false inner = false := by
              obtain ⟨c, hc⟩ := Option.isSome_iff_exists.mp (List.getLast?_isSome.mpr hne)
              rw [touchedAfter_of_getLast? false hc]
              exact hlast c ((List.getLast?_append_of_ne_nil _ hne).trans hc)
            have hshorter : inner.length < (first ++ (word.text ++ inner)).length := by
              have hlength : word.text.length = 3 := word.length_eq
              simp [hlength]
              omega
            split
            · next hshort => exact absurd hshort (top?_append_text_ne top hmore hlast _)
            · rw [hdrop, htake, hrest, ih inner.length hshorter hquoted htouched' rfl]
              simp

end SeriesQuery.Selection
