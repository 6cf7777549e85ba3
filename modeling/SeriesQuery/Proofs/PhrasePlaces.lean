import Mathlib.Data.List.Basic
import SeriesQuery.Text.Nesting

/-!
# Where a phrase stands

The tail of a clause is cut where `ORDER BY` or `TOP` stands in it: outside single quotes, with no
character before or after it that would make it part of a longer word. `Stands` says this of a text
that is cut in two, without a scan, and `splitAtPhrase?_firstPlace` that the scan finds the first
cut of that kind, or that there is none. What a scan must know of the text before it, whether it is
in quotes and whether the last character joins a word, is the same for a scan that begins in the
middle, and so both are said from any state on.
-/

namespace SeriesQuery.Text

/-- Whether a scan is inside single quotes after a text. -/
def quotedAfter (quoted : Bool) (t : Text) : Bool :=
  t.foldl (fun quoted c => if c == '\'' then !quoted else quoted) quoted

/-- Whether the last character of a text joins a word. -/
def touchedAfter (touched : Bool) (t : Text) : Bool := t.foldl (fun _ c => joinsWord c) touched

/-- From a state of the scan on, a phrase stands at the cut between two texts. -/
structure StandsFrom (quoted touched : Bool) (phrase : List Text) (before found : Text) : Prop where
  outside : quotedAfter quoted before = false
  apart : touchedAfter touched before = false
  starts : phraseStarts phrase found = true

/-- A phrase stands at the cut between two texts, as words of its own outside quotes. -/
abbrev Stands (phrase : List Text) (before found : Text) : Prop :=
  StandsFrom false false phrase before found

/-- A phrase stands somewhere in a text. -/
def Contains (phrase : List Text) (t : Text) : Prop :=
  ∃ before found, t = before ++ found ∧ Stands phrase before found

theorem quotedAfter_append (quoted : Bool) (a b : Text) :
    quotedAfter quoted (a ++ b) = quotedAfter (quotedAfter quoted a) b := List.foldl_append

theorem touchedAfter_append (touched : Bool) (a b : Text) :
    touchedAfter touched (a ++ b) = touchedAfter (touchedAfter touched a) b := List.foldl_append

theorem quotedAfter_of_not_mem {t : Text} (h : '\'' ∉ t) (quoted : Bool) :
    quotedAfter quoted t = quoted := by
  induction t with
  | nil => rfl
  | cons c t ih =>
      have hc : ¬ (c == '\'') = true := fun hc => h (eq_of_beq hc ▸ List.mem_cons_self)
      rw [quotedAfter, List.foldl_cons, if_neg hc]
      exact ih fun hmem => h (List.mem_cons_of_mem _ hmem)

/-- An even number of quotes leaves a scan where it was. -/
theorem quotedAfter_eq_count (quoted : Bool) (t : Text) :
    quotedAfter quoted t = (quoted ^^ (t.count '\'' % 2 == 1)) := by
  induction t generalizing quoted with
  | nil => simp [quotedAfter]
  | cons c t ih =>
      have hcons : quotedAfter quoted (c :: t)
          = quotedAfter (if c == '\'' then !quoted else quoted) t := rfl
      rw [hcons, ih, List.count_cons]
      by_cases hc : c = '\''
      · subst hc
        rcases Nat.mod_two_eq_zero_or_one (t.count '\'') with h | h
        · have hodd : (t.count '\'' + 1) % 2 = 1 := by omega
          simp [h, hodd]
        · have heven : (t.count '\'' + 1) % 2 = 0 := by omega
          simp [h, heven]
      · simp [hc]

theorem touchedAfter_concat (touched : Bool) (t : Text) (c : Char) :
    touchedAfter touched (t ++ [c]) = joinsWord c := by
  rw [touchedAfter_append]
  rfl

theorem touchedAfter_of_getLast? (touched : Bool) {t : Text} {c : Char}
    (h : t.getLast? = some c) : touchedAfter touched t = joinsWord c := by
  obtain ⟨front, rfl⟩ := List.getLast?_eq_some_iff.mp h
  exact touchedAfter_concat ..

/-! ## The first place -/

/-- A phrase stands neither at the end of a text nor at a quote. -/
structure IsPhrase (phrase : List Text) : Prop where
  nil : phraseStarts phrase [] = false
  quote : ∀ t, phraseStarts phrase ('\'' :: t) = false

/-- A cut of a text at the first place of a phrase, or none if there is no place. -/
def IsFirstPlace (quoted touched : Bool) (phrase : List Text) (t : Text) :
    Option (Text × Text) → Prop
  | none => ∀ before found, t = before ++ found → ¬ StandsFrom quoted touched phrase before found
  | some (before, found) => t = before ++ found ∧ StandsFrom quoted touched phrase before found
      ∧ ∀ x y, before = x ++ y → y ≠ [] → ¬ StandsFrom quoted touched phrase x (y ++ found)

section Places

variable {quoted touched : Bool} {phrase : List Text} {before found : Text}

theorem standsFrom_cons {c : Char} : StandsFrom quoted touched phrase (c :: before) found
    ↔ StandsFrom (if c == '\'' then !quoted else quoted) (joinsWord c) phrase before found :=
  ⟨fun h => ⟨h.outside, h.apart, h.starts⟩, fun h => ⟨h.outside, h.apart, h.starts⟩⟩

theorem standsFrom_nil : StandsFrom quoted touched phrase [] found
    ↔ quoted = false ∧ touched = false ∧ phraseStarts phrase found = true :=
  ⟨fun h => ⟨h.outside, h.apart, h.starts⟩, fun h => ⟨h.1, h.2.1, h.2.2⟩⟩

/-- What is first after a character at which nothing stands is first. -/
theorem IsFirstPlace.cons {c : Char} {rest : Text} {r : Option (Text × Text)}
    (hc : ¬ StandsFrom quoted touched phrase [] (c :: rest))
    (h : IsFirstPlace (if c == '\'' then !quoted else quoted) (joinsWord c) phrase rest r) :
    IsFirstPlace quoted touched phrase (c :: rest) (consFirst c r) := by
  cases r with
  | none =>
      rintro before found heq hstands
      rcases List.cons_eq_append_iff.mp heq with ⟨rfl, rfl⟩ | ⟨more, rfl, hrest⟩
      · exact hc hstands
      · exact h more found hrest (standsFrom_cons.mp hstands)
  | some cut =>
      obtain ⟨before, found⟩ := cut
      obtain ⟨rfl, hstands, hfirst⟩ := h
      refine ⟨rfl, standsFrom_cons.mpr hstands, fun x y heq hy hearlier => ?_⟩
      rcases List.cons_eq_append_iff.mp heq with ⟨rfl, rfl⟩ | ⟨more, rfl, hbefore⟩
      · exact hc hearlier
      · exact hfirst more y hbefore hy (standsFrom_cons.mp hearlier)

theorem splitAtPhrase?_firstPlace (hphrase : IsPhrase phrase) (quoted touched : Bool) (t : Text) :
    IsFirstPlace quoted touched phrase t (splitAtPhrase? phrase quoted touched t) := by
  induction t generalizing quoted touched with
  | nil =>
      rintro before found heq hstands
      obtain ⟨rfl, rfl⟩ := List.append_eq_nil_iff.mp heq.symm
      exact Bool.false_ne_true (hphrase.nil.symm.trans hstands.starts)
  | cons c rest ih =>
      rw [splitAtPhrase?]
      split
      · next hc =>
          obtain rfl := eq_of_beq hc
          refine .cons (fun hstands => ?_) (ih (!quoted) false)
          exact Bool.false_ne_true ((hphrase.quote rest).symm.trans hstands.starts)
      · next hc =>
          split
          · next hplace =>
              simp only [Bool.and_eq_true, Bool.not_eq_true'] at hplace
              refine ⟨rfl, standsFrom_nil.mpr ⟨hplace.1.1, hplace.1.2, hplace.2⟩, ?_⟩
              intro x y heq hy
              exact absurd (List.append_eq_nil_iff.mp heq.symm).2 hy
          · next hplace =>
              refine .cons (fun hstands => hplace ?_) ?_
              · obtain ⟨hquoted, htouched, hstarts⟩ := standsFrom_nil.mp hstands
                simp [hquoted, htouched, hstarts]
              · rw [if_neg hc]
                exact ih quoted (joinsWord c)

/-- No place is before the first one. -/
theorem IsFirstPlace.exists_middle {t first rest : Text}
    (h : IsFirstPlace quoted touched phrase t (some (first, rest)))
    (hstands : StandsFrom quoted touched phrase before found) (ht : t = before ++ found) :
    ∃ more, before = first ++ more ∧ rest = more ++ found := by
  obtain ⟨heq, -, hearlier⟩ := h
  rcases List.append_eq_append_iff.mp (ht.symm.trans heq) with ⟨more, rfl, rfl⟩ | h
  · cases more with
    | nil => exact ⟨[], by simp, rfl⟩
    | cons c more =>
        exact absurd hstands (hearlier before (c :: more) rfl (List.cons_ne_nil _ _))
  · exact h

theorem splitAtPhrase?_eq_none (hphrase : IsPhrase phrase) {t : Text}
    (h : ∀ x y, t = x ++ y → ¬ StandsFrom quoted touched phrase x y) :
    splitAtPhrase? phrase quoted touched t = none := by
  have hfirst := splitAtPhrase?_firstPlace hphrase quoted touched t
  cases hsplit : splitAtPhrase? phrase quoted touched t with
  | none => rfl
  | some cut =>
      rw [hsplit] at hfirst
      exact absurd hfirst.2.1 (h _ _ hfirst.1)

theorem not_contains_of_split (hphrase : IsPhrase phrase) {t : Text}
    (h : splitAtPhrase? phrase false false t = none) : ¬ Contains phrase t := by
  have hfirst := splitAtPhrase?_firstPlace hphrase false false t
  rw [h] at hfirst
  rintro ⟨before, found, ht, hstands⟩
  exact hfirst before found ht hstands

theorem splitAtPhrase?_eq_some (hphrase : IsPhrase phrase)
    (h : StandsFrom quoted touched phrase before found)
    (hearlier : ∀ x y, before = x ++ y → y ≠ [] →
      ¬ StandsFrom quoted touched phrase x (y ++ found)) :
    splitAtPhrase? phrase quoted touched (before ++ found) = some (before, found) := by
  have hfirst := splitAtPhrase?_firstPlace hphrase quoted touched (before ++ found)
  cases hsplit : splitAtPhrase? phrase quoted touched (before ++ found) with
  | none =>
      rw [hsplit] at hfirst
      exact absurd h (hfirst before found rfl)
  | some cut =>
      obtain ⟨before', found'⟩ := cut
      rw [hsplit] at hfirst
      obtain ⟨more, rfl, rfl⟩ := hfirst.exists_middle h rfl
      cases more with
      | nil => simp
      | cons c more =>
          exact absurd hfirst.2.1 (hearlier before' (c :: more) rfl (List.cons_ne_nil _ _))

end Places

end SeriesQuery.Text
