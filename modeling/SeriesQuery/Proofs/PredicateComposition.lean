import SeriesQuery.Proofs.PredicateReading
import SeriesQuery.Proofs.QuotedValues

/-!
# Predicates put together

Two predicates are joined by putting each in parentheses, with `AND` or `OR` between them. That
the parts keep their meaning rests on what is known of a text that is accepted: all of it is read,
so it is closed, and what is read stays the same when a parenthesis stops it.

The texts that stand for every row are the exception, `1=1` and `true` in any letter case. They
are recognised only as the whole of a text. In parentheses the first is a comparison of a field
named `1`, and the second is no predicate at all.
-/

namespace SeriesQuery

open Text

namespace Predicate

variable {lib : RegexLibrary}

/-! ## Composed texts -/

/-- A text in parentheses. -/
def enclosed (t : Text) : Text := '(' :: (t ++ [')'])

/-- The text `(p) AND (q)`, or with another keyword. -/
def joinedText (word p q : Text) : Text := enclosed p ++ ' ' :: (word ++ ' ' :: enclosed q)

/-- The text `NOT (p)`. -/
def negatedText (p : Text) : Text := notWord ++ ' ' :: enclosed p

/-- A text without white space around it that is read as a predicate, and not because the whole of
it stands for every row. -/
structure Spells (lib : RegexLibrary) (t : Text) (p : Predicate) : Prop where
  trim_eq : trim t = t
  isAlways_eq : isAlways t = false
  parse_eq : parse lib t = .ok p

/-- Readers leave nothing of an accepted text but separators. -/
theorem parse_eq_ok_iff {t : Text} {p : Predicate} (htrim : trim t = t)
    (halways : isAlways t = false) : parse lib t = .ok p
      ↔ ∃ rest, junction (operand lib (t.length + 1)) t = .ok (p, rest)
        ∧ skipSeparators rest = [] := by
  have hskip : skipSeparators t = t := dropWhile_of_head? fun c hc =>
    isSeparator_of_isBlank_eq_false (head?_of_trim_eq htrim c hc)
  simp only [parse, htrim, halways, hskip, Bool.false_eq_true, if_false]
  cases junction (operand lib (t.length + 1)) t with
  | error refusal => cases refusal <;> simp
  | ok found =>
      obtain ⟨p', rest⟩ := found
      cases hrest : skipSeparators rest with
      | nil =>
          simp only [hrest]
          refine ⟨fun h => ⟨rest, ?_, hrest⟩, ?_⟩
          · cases h
            rfl
          · rintro ⟨rest', h, -⟩
            cases h
            rfl
      | cons c more =>
          simp only [hrest]
          refine ⟨nofun, ?_⟩
          rintro ⟨rest', h, hnil⟩
          cases h
          cases hrest.symm.trans hnil

section Spells

variable {t u s : Text} {p q : Predicate}

theorem Spells.skipSeparators_append (h : Spells lib t p) (hs : Stops s) :
    skipSeparators (t ++ s) = t ++ s := by
  have hskip : skipSeparators t = t := dropWhile_of_head? fun c hc =>
    isSeparator_of_isBlank_eq_false (head?_of_trim_eq h.trim_eq c hc)
  rw [Text.skipSeparators_append hs, hskip]

/-- As there is no white space at its end, all of the text is read. -/
theorem Spells.junction_eq (h : Spells lib t p) :
    junction (operand lib (t.length + 1)) t = .ok (p, []) := by
  obtain ⟨rest, hread, hrest⟩ := (parse_eq_ok_iff h.trim_eq h.isAlways_eq).mp h.parse_eq
  obtain ⟨taken, -, ht⟩ := (agree_operand lib (t.length + 1) (t.length + 1)).junction.leaves hread
  cases hlast : rest.getLast? with
  | none => rw [hread, List.getLast?_eq_none_iff.mp hlast]
  | some c =>
      have hseparator := List.dropWhile_eq_nil_iff.mp hrest c (List.mem_of_getLast? hlast)
      have hblank := getLast?_of_trim_eq h.trim_eq c (by simp [ht, hlast])
      rw [isSeparator_of_isBlank_eq_false hblank] at hseparator
      cases hseparator

/-- What stops a text does not change what it is read as. -/
theorem Spells.junction_append (h : Spells lib t p) {fuel : Nat} (hfuel : t.length < fuel)
    (hs : Stops s) : junction (operand lib fuel) (t ++ s) = .ok (p, s) := by
  have hread := h.junction_eq
  obtain ⟨taken, htaken, ht⟩ :=
    (agree_operand lib (t.length + 1) (t.length + 1)).junction.leaves hread
  have hsettles : Settles 0 t := by
    rw [ht, List.append_nil]
    exact htaken 0
  have hlength : t.length < min (t.length + 1) fuel := by omega
  rw [(agree_operand lib (t.length + 1) fuel).junction.append hlength hsettles hs, hread]
  rfl

theorem Spells.operand_enclosed (h : Spells lib t p) {fuel : Nat} (hfuel : t.length + 1 < fuel) :
    operand lib fuel (enclosed t ++ s) = .ok (p, s) := by
  obtain ⟨fuel, rfl⟩ : ∃ n, fuel = n + 1 := ⟨fuel - 1, by omega⟩
  have hstops : Stops (')' :: s) := by
    rintro c ⟨⟩
    rfl
  have hgroup : group (operand lib fuel) ('(' :: (t ++ ')' :: s)) = .ok (p, s) := by
    rw [group, h.skipSeparators_append hstops, h.junction_append (by omega) hstops]
    rfl
  have htext : enclosed t ++ s = '(' :: (t ++ ')' :: s) := by simp [enclosed]
  have hnegation : negation (operand lib fuel) ('(' :: (t ++ ')' :: s)) = .error .otherForm := rfl
  rw [htext, operand, hgroup, hnegation]
  rfl

end Spells

/-! ## Joining -/

section Joining

variable {t u : Text} {p q : Predicate}

/-- What begins neither as `1=1` nor as `true` does, and ends in no white space, is read by its
words. -/
theorem trim_isAlways_of_ends {c d : Char} {rest : Text} (ht : t = c :: rest)
    (hlast : t.getLast? = some d) (hc : isBlank c = false ∧ c ≠ '1' ∧ c.toLower ≠ 't')
    (hd : isBlank d = false) : trim t = t ∧ isAlways t = false := by
  subst ht
  refine ⟨trim_of_ends ?_ ?_, ?_⟩
  · rintro e ⟨⟩
    exact hc.1
  · rw [hlast]
    rintro e ⟨⟩
    exact hd
  · rw [← Bool.not_eq_true]
    intro halways
    simp only [isAlways, Bool.or_eq_true, List.isEmpty_iff, beq_iff_eq, sameLetters] at halways
    rcases halways with (h | h) | h
    · cases h
    · injection h with h
      exact hc.2.1 h
    · injection h with h
      exact hc.2.2 h

theorem getLast?_enclosed (before t : Text) : (before ++ enclosed t).getLast? = some ')' := by
  rw [enclosed, ← List.cons_append, ← List.append_assoc, List.getLast?_concat]

theorem getLast?_joinedText (word t u : Text) : (joinedText word t u).getLast? = some ')' := by
  have htext : joinedText word t u = (enclosed t ++ ' ' :: (word ++ [' '])) ++ enclosed u := by
    simp [joinedText]
  rw [htext]
  exact getLast?_enclosed ..

section Chain

variable {word rest next : Text} {join : Predicate → Predicate → Predicate}
  {operand : Text → Reading}

theorem chain_of_last (h : operand t = .ok (p, rest)) (hword : afterSetOffWord? word rest = none) :
    chain word join operand t = .ok (p, rest) := by
  rw [chain, h]
  cases rest with
  | nil => rfl
  | cons c rest => simp only [Bind.bind, Except.bind, List.length_cons, chainFrom, hword]

theorem chain_of_two (h : operand t = .ok (p, rest))
    (hword : afterSetOffWord? word rest = some next) (hnext : operand next = .ok (q, [])) :
    chain word join operand t = .ok (join p q, []) := by
  rw [chain, h]
  cases rest with
  | nil => cases hword
  | cons c rest =>
      have hend : ∀ fuel, chainFrom word join operand fuel (join p q) [] = .ok (join p q, []) := by
        intro fuel
        cases fuel <;> rfl
      simp only [Bind.bind, Except.bind, List.length_cons, chainFrom.eq_2, hword, hnext, hend]

/-- A chain ends before an operand that is none. -/
theorem chain_of_refused (h : operand t = .ok (p, rest))
    (hword : afterSetOffWord? word rest = some next) (hnext : operand next = .error .otherForm) :
    chain word join operand t = .ok (p, rest) := by
  rw [chain, h]
  cases rest with
  | nil => rfl
  | cons c rest =>
      simp only [Bind.bind, Except.bind, List.length_cons, chainFrom.eq_2, hword, hnext]

end Chain

/-- A text is read as this or that when it stands in parentheses. -/
def ReadsEnclosed (lib : RegexLibrary) (t : Text) (reading : Reading) : Prop :=
  ∀ fuel, t.length + 1 < fuel → operand lib fuel (enclosed t) = reading

theorem Spells.readsEnclosed (h : Spells lib t p) : ReadsEnclosed lib t (.ok (p, [])) := by
  intro fuel hfuel
  have hread := h.operand_enclosed (s := []) hfuel
  rwa [List.append_nil] at hread

theorem length_joinedText (word t u : Text) : t.length + 1 < (joinedText word t u).length
    ∧ u.length + 1 < (joinedText word t u).length := by
  simp [joinedText, enclosed]
  omega

theorem joinedText_ends (word t u : Text) :
    trim (joinedText word t u) = joinedText word t u ∧ isAlways (joinedText word t u) = false :=
  trim_isAlways_of_ends rfl (getLast?_joinedText ..) (by decide) (by decide)

theorem negatedText_ends (t : Text) :
    trim (negatedText t) = negatedText t ∧ isAlways (negatedText t) = false :=
  trim_isAlways_of_ends rfl (getLast?_enclosed (notWord ++ [' ']) t) (by decide) (by decide)

/-- What a joined text is read as goes by what is left of it. -/
theorem parse_joinedText_iff {word : Text} : parse lib (joinedText word t u) = .ok p
    ↔ ∃ rest, junction (operand lib ((joinedText word t u).length + 1)) (joinedText word t u)
      = .ok (p, rest) ∧ skipSeparators rest = [] :=
  parse_eq_ok_iff (joinedText_ends ..).1 (joinedText_ends ..).2

theorem parse_negatedText_iff : parse lib (negatedText t) = .ok p
    ↔ ∃ rest, junction (operand lib ((negatedText t).length + 1)) (negatedText t) = .ok (p, rest)
      ∧ skipSeparators rest = [] :=
  parse_eq_ok_iff (negatedText_ends t).1 (negatedText_ends t).2

theorem parse_both (h : Spells lib t p) (h' : ReadsEnclosed lib u (.ok (q, []))) :
    parse lib (joinedText andWord t u) = .ok (and p q) := by
  obtain ⟨ht, hu⟩ := length_joinedText andWord t u
  have hfirst := h.operand_enclosed (s := ' ' :: (andWord ++ ' ' :: enclosed u))
    (Nat.lt_succ_of_lt ht)
  have hand : chain andWord and (operand lib _) (joinedText andWord t u) = .ok (and p q, []) :=
    chain_of_two hfirst rfl (h' _ (Nat.lt_succ_of_lt hu))
  exact parse_joinedText_iff.mpr ⟨[], chain_of_last hand rfl, rfl⟩

theorem parse_either (h : Spells lib t p) (h' : ReadsEnclosed lib u (.ok (q, []))) :
    parse lib (joinedText orWord t u) = .ok (or p q) := by
  obtain ⟨ht, hu⟩ := length_joinedText orWord t u
  have hfirst := h.operand_enclosed (s := ' ' :: (orWord ++ ' ' :: enclosed u))
    (Nat.lt_succ_of_lt ht)
  have hleft : chain andWord and (operand lib _) (joinedText orWord t u)
      = .ok (p, ' ' :: (orWord ++ ' ' :: enclosed u)) := chain_of_last hfirst rfl
  have hright : chain andWord and (operand lib _) (enclosed u) = .ok (q, []) :=
    chain_of_last (h' _ (Nat.lt_succ_of_lt hu)) rfl
  exact parse_joinedText_iff.mpr ⟨[], chain_of_two hleft rfl hright, rfl⟩

theorem length_negatedText (t : Text) : t.length + 1 < (negatedText t).length := by
  simp [negatedText, enclosed, notWord]

theorem parse_negated (h : ReadsEnclosed lib t (.ok (p, []))) :
    parse lib (negatedText t) = .ok (not p) := by
  have hinner := h _ (length_negatedText t)
  have hword : (afterWord? notWord (negatedText t)).bind afterSeparators? = some (enclosed t) := rfl
  have hoperand : operand lib ((negatedText t).length + 1) (negatedText t) = .ok (not p, []) := by
    rw [operand, negation, hword]
    simp only [hinner]
    rfl
  exact parse_negatedText_iff.mpr ⟨[], chain_of_last (chain_of_last hoperand rfl) rfl, rfl⟩

end Joining

/-! ## Texts that stand for every row -/

section Names

variable {name : Text} (h : IsIdentifier name)

include h

theorem field?_name : field? name = some (name, []) := by
  have hname : identifier? (name ++ []) = some (name, []) := identifier?_append h nofun
  rw [List.append_nil] at hname
  obtain ⟨c, rest, rfl⟩ := List.exists_cons_of_ne_nil h.ne_nil
  have hc : c ≠ '[' := by
    rintro rfl
    exact absurd (h.isIdentifierChar '[' List.mem_cons_self) (by decide)
  rw [field?_eq, hname]
  simp [bracketed?, hc]

/-- A name with nothing behind it is no predicate. -/
theorem operand_name (fuel : Nat) : operand lib fuel name = .error .otherForm := by
  cases fuel with
  | zero => rfl
  | succ fuel =>
      have hfield := field?_name h
      have hnegation : negation (operand lib fuel) name = .error .otherForm := by
        rw [negation]
        cases hword : (afterWord? notWord name).bind afterSeparators? with
        | none => rfl
        | some rest =>
            obtain ⟨after, hafter, hrest⟩ := Option.bind_eq_some_iff.mp hword
            cases after with
            | nil => cases hrest
            | cons c more =>
                have hsuffix := steadyWord_notWord.word_leaves hafter
                obtain ⟨taken, -, hname⟩ := hsuffix
                have hc := h.isIdentifierChar c (by simp [hname])
                have hblank := isSeparator_of_isBlank_eq_false (isBlank_of_isIdentifierChar hc)
                simp [afterSeparators?, hblank] at hrest
      have hgroup : group (operand lib fuel) name = .error .otherForm := by
        obtain ⟨c, rest, rfl⟩ := List.exists_cons_of_ne_nil h.ne_nil
        have hc : c ≠ '(' := by
          rintro rfl
          exact absurd (h.isIdentifierChar '(' List.mem_cons_self) (by decide)
        simp [group, hc]
      have hcondition : condition lib name = .error .otherForm := by
        have hnull : isNull? name = none := by
          rw [isNull?, hfield]
          rfl
        have hlist : oneOf? name = none := by
          rw [oneOf?, hfield]
          rfl
        have hlike : likeReading lib name = .error .otherForm := by
          rw [likeReading, likeHead?, hfield]
          rfl
        have hcompare : compare? name = none := by
          rw [compare?, hfield]
          rfl
        rw [condition, hnull, hlist, hlike, hcompare]
        rfl
      rw [operand, hnegation, hgroup, hcondition]
      rfl

theorem readsEnclosed_name : ReadsEnclosed lib name (.error .otherForm) := by
  intro fuel hfuel
  obtain ⟨fuel, rfl⟩ : ∃ n, fuel = n + 1 := ⟨fuel - 1, by omega⟩
  have hplain : ∀ c ∈ name, IsPlain c := fun c hc =>
    isPlain_of_class (by decide) (h.isIdentifierChar c hc)
  have hstops : Stops [')'] := by
    rintro c ⟨⟩
    rfl
  have hskip : skipSeparators (name ++ [')']) = name ++ [')'] := by
    refine dropWhile_of_head? fun c hc => ?_
    obtain ⟨d, rest, rfl⟩ := List.exists_cons_of_ne_nil h.ne_nil
    cases hc
    exact isSeparator_of_isBlank_eq_false
      (isBlank_of_isIdentifierChar (h.isIdentifierChar _ List.mem_cons_self))
  have hinner : junction (operand lib fuel) (name ++ [')']) = .error .otherForm := by
    have hlone : junction (operand lib (name.length + 1)) name = .error .otherForm := by
      rw [junction, chain, chain, operand_name h]
      rfl
    have hlength : name.length < min (name.length + 1) fuel := by omega
    rw [(agree_operand lib (name.length + 1) fuel).junction.append hlength
      (IsClosed.of_isPlain hplain 0) hstops, hlone]
    rfl
  have hgroup : group (operand lib fuel) (enclosed name) = .error .otherForm := by
    rw [enclosed, group, hskip, hinner]
    rfl
  rw [operand, hgroup]
  rfl

end Names

theorem isIdentifier_of_sameLetters {t word : Text} (hne : t ≠ []) (h : sameLetters t word = true)
    (hword : IsLetters word) : IsIdentifier t where
  ne_nil := hne
  isIdentifierChar c hc := by
    have hlower : asciiLower t = asciiLower word := eq_of_beq h
    have hmem : c.toLower ∈ asciiLower t := List.mem_map_of_mem hc
    rw [hlower] at hmem
    obtain ⟨w, hw, hcase⟩ := List.mem_map.mp hmem
    have hletter := isAsciiLetter_of_toLower_eq (hword.isAsciiLetter w hw) hcase
    have halphanumeric : isAsciiAlphanumeric c = true := isAsciiAlphanumeric_iff.mpr (.inl hletter)
    have hascii : c.toNat < 128 := by
      rw [isAsciiLetter_iff] at hletter
      omega
    have hany : isAlphanumeric c = true := (if_pos hascii).trans halphanumeric
    simp [Text.isIdentifierChar, hany]

/-- In parentheses `1=1` is a comparison. -/
theorem readsEnclosed_one :
    ReadsEnclosed lib ['1', '=', '1'] (.ok (compare ['1'] .equal ['1'], [])) := by
  intro fuel hfuel
  obtain ⟨fuel, rfl⟩ : ∃ n, fuel = n + 2 := ⟨fuel - 2, by omega⟩
  rfl

theorem cases_of_isAlways {t : Text} (hne : t ≠ []) (h : isAlways t = true) :
    t = ['1', '=', '1'] ∨ IsIdentifier t := by
  simp only [isAlways, Bool.or_eq_true, List.isEmpty_iff, beq_iff_eq] at h
  rcases h with (h | h) | h
  · exact absurd h hne
  · exact .inl h
  · exact .inr (isIdentifier_of_sameLetters hne h ⟨rfl⟩)

section Refused

variable {t u : Text} {p q : Predicate}

theorem parse_negated_refused (h : ReadsEnclosed lib t (.error .otherForm)) :
    parse lib (negatedText t) ≠ .ok p := by
  intro hparse
  obtain ⟨rest, hread, -⟩ := parse_negatedText_iff.mp hparse
  have hinner := h _ (length_negatedText t)
  have hword : (afterWord? notWord (negatedText t)).bind afterSeparators? = some (enclosed t) := rfl
  have hcondition : condition lib (negatedText t) = .error .otherForm := rfl
  have hoperand : operand lib ((negatedText t).length + 1) (negatedText t) = .error .otherForm := by
    rw [operand, negation, hword, hcondition]
    simp only [hinner]
    rfl
  rw [junction, chain, chain, hoperand] at hread
  cases hread

theorem parse_both_refused (h : Spells lib t p) (h' : ReadsEnclosed lib u (.error .otherForm)) :
    parse lib (joinedText andWord t u) ≠ .ok q := by
  intro hparse
  obtain ⟨rest, hread, hrest⟩ := parse_joinedText_iff.mp hparse
  obtain ⟨ht, hu⟩ := length_joinedText andWord t u
  have hfirst := h.operand_enclosed (s := ' ' :: (andWord ++ ' ' :: enclosed u))
    (Nat.lt_succ_of_lt ht)
  have hand : chain andWord and (operand lib _) (joinedText andWord t u)
      = .ok (p, ' ' :: (andWord ++ ' ' :: enclosed u)) :=
    chain_of_refused hfirst rfl (h' _ (Nat.lt_succ_of_lt hu))
  have hor : junction (operand lib _) (joinedText andWord t u)
      = .ok (p, ' ' :: (andWord ++ ' ' :: enclosed u)) := chain_of_last hand rfl
  cases hor.symm.trans hread
  cases hrest

end Refused

/-! ## When texts compose -/

/-- Joined and negated in parentheses, two texts are read as what their predicates come to. -/
def Compose (lib : RegexLibrary) (t u : Text) (p q : Predicate) : Prop :=
  ∃ both either negated, parse lib (joinedText andWord t u) = .ok both
    ∧ parse lib (joinedText orWord t u) = .ok either ∧ parse lib (negatedText t) = .ok negated
    ∧ ∀ row, both.holds lib row = (p.holds lib row && q.holds lib row)
      ∧ either.holds lib row = (p.holds lib row || q.holds lib row)
      ∧ negated.holds lib row = !p.holds lib row

section Compose

variable {t u : Text} {p q : Predicate}

theorem Spells.compose (h : Spells lib t p) (h' : Spells lib u q) : Compose lib t u p q :=
  ⟨and p q, or p q, not p, parse_both h h'.readsEnclosed, parse_either h h'.readsEnclosed,
    parse_negated h.readsEnclosed, fun _ => ⟨rfl, rfl, rfl⟩⟩

theorem parse_of_isAlways (htrim : trim t = t) (h : isAlways t = true) :
    parse lib t = .ok always := by
  simp only [parse, htrim, h, if_true]

/-- Of a text that stands for every row the negation is refused, or it is that of a comparison. -/
theorem isAlways_left_of_compose (hne : t ≠ []) (htrim : trim t = t) (hparse : parse lib t = .ok p)
    (h : Compose lib t u p q) : isAlways t = false := by
  rw [← Bool.not_eq_true]
  intro halways
  cases hparse.symm.trans (parse_of_isAlways htrim halways)
  obtain ⟨both, either, negated, -, -, hnegated, hrows⟩ := h
  rcases cases_of_isAlways hne halways with rfl | hname
  · cases hnegated.symm.trans (parse_negated readsEnclosed_one)
    have hempty : true = false := (hrows Fields.empty).2.2
    cases hempty
  · exact parse_negated_refused (readsEnclosed_name hname) hnegated

theorem isAlways_right_of_compose (hne : u ≠ []) (htrim : trim u = u) (hparse : parse lib u = .ok q)
    (hspells : Spells lib t p) (h : Compose lib t u p q) : isAlways u = false := by
  rw [← Bool.not_eq_true]
  intro halways
  cases hparse.symm.trans (parse_of_isAlways htrim halways)
  obtain ⟨both, either, negated, hboth, heither, -, hrows⟩ := h
  rcases cases_of_isAlways hne halways with rfl | hname
  · cases hboth.symm.trans (parse_both hspells readsEnclosed_one)
    cases heither.symm.trans (parse_either hspells readsEnclosed_one)
    -- without a field `1` the comparison fails, where the text itself would have held
    obtain ⟨hand, hor, -⟩ := hrows Fields.empty
    have hboth : (p.holds lib Fields.empty && false) = (p.holds lib Fields.empty && true) := hand
    have heither : (p.holds lib Fields.empty || false) = (p.holds lib Fields.empty || true) := hor
    cases hp : p.holds lib Fields.empty with
    | false =>
        rw [hp] at heither
        cases heither
    | true =>
        rw [hp] at hboth
        cases hboth
  · exact parse_both_refused hspells (readsEnclosed_name hname) hboth

/-- Accepted texts compose exactly if neither is one that stands for every row as a whole. -/
theorem compose_iff (hp : parse lib t = .ok p) (hq : parse lib u = .ok q) (ht : t ≠ [])
    (hu : u ≠ []) (htrim : trim t = t) (hutrim : trim u = u) :
    Compose lib t u p q ↔ isAlways t = false ∧ isAlways u = false := by
  constructor
  · intro h
    have hleft := isAlways_left_of_compose ht htrim hp h
    exact ⟨hleft, isAlways_right_of_compose hu hutrim hq ⟨htrim, hleft, hp⟩ h⟩
  · rintro ⟨hleft, hright⟩
    exact Spells.compose ⟨htrim, hleft, hp⟩ ⟨hutrim, hright, hq⟩

end Compose

theorem compose_iff_comparisons : Compose .standard ['a', '=', '1'] ['b', '<', '2']
    (compare ['a'] .equal ['1']) (compare ['b'] .less ['2']) :=
  (compose_iff rfl rfl (by decide) (by decide) (by decide) (by decide)).mpr ⟨rfl, rfl⟩

/-- Every row satisfies `1=1`, and a row without a field `1` satisfies `NOT (1=1)` too. -/
theorem negated_one_holds : ∃ p q, parse .standard ['1', '=', '1'] = .ok p
    ∧ parse .standard (negatedText ['1', '=', '1']) = .ok q
    ∧ p.holds .standard Fields.empty = true ∧ q.holds .standard Fields.empty = true :=
  ⟨always, not (compare ['1'] .equal ['1']), rfl, rfl, rfl, rfl⟩

end Predicate

end SeriesQuery
