import Mathlib.Data.List.Basic
import SeriesQuery.Proofs.ScanSteps

/-!
# Where a call stands

What makes a place of a text the beginning of a call is said here of the text alone: what stands
before it is closed, a whole identifier begins there with a parenthesis after it, and no clause
reaches it. A clause reaches from its keyword, itself a whole word at the top level, to the next
semicolon at the top level.

The scan only looks at places where it stands, between two pieces. That it misses nothing rests on
one fact about pieces (`Cut.inside`): past its first character a piece has no place at the top
level where a word or a semicolon begins. So words and clauses begin where pieces do, and the flag
that the scan carries says whether a clause reaches the place where it stands.
-/

namespace SeriesQuery

open Scan Text

/-! ## Places in a text -/

/-- Two texts that make no longer word of their own when put together. -/
def Apart (before after : Text) : Prop :=
  ∀ c ∈ before.getLast?, ∀ d ∈ after.head?, isWordChar c = true → isWordChar d = false

/-- What stands between the two texts lies in a clause: a keyword of a clause is a word of its own
before it, and both stand at the top level with no semicolon between them that does. -/
def InClause (before after : Text) : Prop :=
  ∃ lead keyword clause, before = lead ++ keyword ++ clause
    ∧ Word keyword (clause ++ after) ∧ Apart lead keyword ∧ Closed lead
    ∧ isOneOf clauseWords keyword = true
    ∧ ∀ a b, clause = a ++ ';' :: b → ¬ Closed (lead ++ keyword ++ a)

/-- Between a text and what follows it a call might begin: an identifier followed by a parenthesis
that stands outside quotes, parentheses and clauses. -/
structure CallAt (before word gap inside : Text) : Prop where
  /-- The identifier, white space and the parenthesis. -/
  ahead : Ahead word gap inside
  /-- The identifier begins here. -/
  apart : Apart before word
  /-- Nothing is open. -/
  top : Closed before
  /-- No clause reaches the parenthesis. -/
  free : ¬ InClause (before ++ word) (gap ++ '(' :: inside)

namespace Scan

theorem Word.exists_cons {word after : Text} (h : Word word after) :
    ∃ c rest, word = c :: rest ∧ isWordChar c = true := by
  obtain ⟨c, rest, rfl⟩ := List.exists_cons_of_ne_nil h.ne_nil
  exact ⟨c, rest, rfl, h.all c List.mem_cons_self⟩

theorem ne_semicolon_of_wordChar {c : Char} (h : isWordChar c = true) : c ≠ ';' := by
  rintro rfl
  revert h
  decide

end Scan

theorem Apart.of_append {before mid word : Text} (hmid : mid ≠ [])
    (h : Apart (before ++ mid) word) : Apart mid word := by
  intro c hc
  refine h c ?_
  rw [List.getLast?_append_of_ne_nil _ hmid]
  exact hc

/-- After a text that ends in a word none begins. -/
theorem Apart.not_wordChar {before mid after : Text} {d : Char} (h : Apart (before ++ mid) after)
    (hmid : mid ≠ []) (hall : ∀ c ∈ mid.getLast?, isWordChar c = true) (hd : d ∈ after.head?) :
    isWordChar d = false := by
  obtain ⟨last, hlast⟩ : ∃ last, last ∈ mid.getLast? :=
    ⟨_, List.getLast?_eq_getLast_of_ne_nil hmid⟩
  exact h.of_append hmid last hlast d hd (hall last hlast)

theorem Apart.append_left {before mid word : Text} (hmid : mid ≠ []) (h : Apart mid word) :
    Apart (before ++ mid) word := by
  intro c hc
  refine h c ?_
  rw [List.getLast?_append_of_ne_nil _ hmid] at hc
  exact hc

theorem Apart.take {before word after : Text} (hword : word ≠ [])
    (h : Apart before (word ++ after)) : Apart before word := by
  intro c hc d hd
  refine h c hc d ?_
  rw [List.head?_append_of_ne_nil _ hword]
  exact hd

/-! ## Clauses -/

namespace InClause

theorem nil (after : Text) : ¬ InClause [] after := by
  rintro ⟨lead, keyword, clause, he, hword, -⟩
  rw [List.append_assoc] at he
  exact hword.ne_nil (List.append_eq_nil_iff.mp (List.append_eq_nil_iff.mp he.symm).2).1

/-- A keyword of a clause begins one. -/
theorem start {before word after : Text} (h : Word word after) (hapart : Apart before word)
    (htop : Closed before) (hw : isOneOf clauseWords word = true) :
    InClause (before ++ word) after := by
  refine ⟨before, word, [], (List.append_nil _).symm, h, hapart, htop, hw, fun a b he => ?_⟩
  cases a <;> cases he

/-- A clause goes on over a text without semicolons at the top level. -/
theorem append {before mid after : Text} (h : InClause before (mid ++ after))
    (hmid : ∀ a b, mid = a ++ ';' :: b → ¬ Closed (before ++ a)) :
    InClause (before ++ mid) after := by
  obtain ⟨lead, keyword, clause, rfl, hword, hapart, htop, hw, hsemi⟩ := h
  refine ⟨lead, keyword, clause ++ mid, List.append_assoc _ _ _, ?_, hapart, htop, hw, ?_⟩
  · rw [List.append_assoc]
    exact hword
  · intro a b he
    rcases List.append_eq_append_iff.mp he with ⟨more, rfl, hm⟩ | ⟨more, rfl, hm⟩
    · rw [← List.append_assoc]
      exact hmid more b hm
    · cases more with
      | nil =>
          rw [List.append_nil] at hsemi hmid
          exact fun ha => hmid [] b hm.symm (by rwa [List.append_nil])
      | cons c more =>
          cases hm
          exact hsemi a more rfl

/-- A clause that reaches the end of a text either reached its beginning or began in it. -/
theorem of_append {before mid after : Text} (happ : Apart before (mid ++ after))
    (h : InClause (before ++ mid) after) :
    (InClause before (mid ++ after) ∧ ∀ a b, mid = a ++ ';' :: b → ¬ Closed (before ++ a))
    ∨ ∃ skipped keyword clause, mid = skipped ++ (keyword ++ clause)
      ∧ Word keyword (clause ++ after) ∧ Apart (before ++ skipped) keyword
      ∧ Closed (before ++ skipped) ∧ isOneOf clauseWords keyword = true := by
  obtain ⟨lead, keyword, clause, he, hword, hapart, htop, hw, hsemi⟩ := h
  rw [List.append_assoc] at he
  rcases List.append_eq_append_iff.mp he with ⟨skipped, rfl, hm⟩ | ⟨more, rfl, hm⟩
  · exact .inr ⟨skipped, keyword, clause, hm, hword, hapart, htop, hw⟩
  have hreached : ∀ rest, more = keyword ++ rest → clause = rest ++ mid →
      InClause (lead ++ more) (mid ++ after)
        ∧ ∀ a b, mid = a ++ ';' :: b → ¬ Closed (lead ++ more ++ a) := by
    rintro rest rfl rfl
    rw [← List.append_assoc]
    rw [List.append_assoc] at hword
    refine ⟨⟨lead, keyword, rest, rfl, hword, hapart, htop, hw, fun a b he => ?_⟩, fun a b he => ?_⟩
    · refine hsemi a (b ++ mid) ?_
      rw [he, List.append_assoc, List.cons_append]
    · rw [List.append_assoc]
      refine hsemi (rest ++ a) b ?_
      rw [he, List.append_assoc]
  rcases List.append_eq_append_iff.mp hm with ⟨rest, hmore, hclause⟩ | ⟨rest, hkey, hmid⟩
  · exact .inl (hreached rest hmore hclause)
  cases rest with
  | nil =>
      rw [List.append_nil] at hkey
      refine .inl (hreached [] ?_ hmid.symm)
      rw [hkey, List.append_nil]
  | cons d rest =>
      cases more with
      | nil =>
          -- the keyword begins where the text after `before` does
          rw [List.append_nil]
          rw [List.nil_append] at hkey
          refine .inr ⟨[], keyword, clause, ?_, hword, ?_, ?_, hw⟩
          · rw [hkey]
            exact hmid
          · rwa [List.append_nil]
          · rwa [List.append_nil]
      | cons c more =>
          -- the keyword would be a word across the place where two texts stand apart
          have hall : ∀ e ∈ (c :: more).getLast?, isWordChar e = true := fun e he =>
            hword.all e (hkey ▸ List.mem_append_left _ (List.mem_of_mem_getLast? he))
          have hd : d ∈ keyword := by
            rw [hkey]
            exact List.mem_append_right _ List.mem_cons_self
          have hnot : isWordChar d = false := by
            refine happ.not_wordChar (List.cons_ne_nil c more) hall ?_
            rw [hmid]
            rfl
          rw [hword.all d hd] at hnot
          cases hnot

end InClause

namespace Scan

/-- A word that begins no clause leaves a place outside clauses outside them. -/
theorem Word.not_inClause {before word after : Text} (h : Word word after)
    (hapart : Apart before (word ++ after)) (hw : isOneOf clauseWords word = false)
    (hfree : ¬ InClause before (word ++ after)) : ¬ InClause (before ++ word) after := by
  intro hin
  rcases hin.of_append hapart with ⟨hin, -⟩ | ⟨skipped, keyword, clause, he, hkey, hap, -, hk⟩
  · exact hfree hin
  obtain ⟨d, rest, rfl, hd⟩ := hkey.exists_cons
  cases skipped with
  | nil =>
      have hsame := h.unique hkey (by rw [he, List.nil_append, List.append_assoc])
      rw [hsame.1, hk] at hw
      cases hw
  | cons c skipped =>
      have hall : ∀ e ∈ (c :: skipped).getLast?, isWordChar e = true := fun e hlast =>
        h.all e (he ▸ List.mem_append_left _ (List.mem_of_mem_getLast? hlast))
      have hnot := hap.not_wordChar (List.cons_ne_nil c skipped) hall rfl
      rw [hd] at hnot
      cases hnot

/-! ## Inside a piece -/

/-- No word and no semicolon begins at this place. -/
def NothingBegins (before after : Text) : Prop :=
  ∀ d ∈ after.head?, d ≠ ';' ∧ (isWordChar d = true → ∀ c ∈ before.getLast?, isWordChar c = true)

theorem nothingBegins_of_word {word x y : Text} (hall : ∀ c ∈ word, isWordChar c = true)
    (he : word = x ++ y) : NothingBegins x y := by
  intro d hd
  have hdw : isWordChar d = true :=
    hall d (he ▸ List.mem_append_right _ (List.mem_of_mem_head? hd))
  refine ⟨ne_semicolon_of_wordChar hdw, fun _ c hc => ?_⟩
  exact hall c (he ▸ List.mem_append_left _ (List.mem_of_mem_getLast? hc))

/-- In quotes no place is at the top level. -/
theorem not_closed_in_quotes {body a : Text} (h : '\'' ∉ body) (ha : a <+: body) :
    ¬ Closed ('\'' :: a) := by
  intro hc
  have hquoted : Nesting.openAfter? ⟨0, true⟩ a = some ⟨0, true⟩ :=
    Nesting.openAfter?_quoted 0 fun hm => h (ha.subset hm)
  have hsome : (some ⟨0, true⟩ : Option Nesting) = some Nesting.outside := hquoted.symm.trans hc
  cases hsome

/-- What stands before a place inside parentheses or quotes, without the last character of the
whole. -/
theorem prefix_of_append_singleton {body x y : Text} {last : Char} (hy : y ≠ [])
    (he : body ++ [last] = x ++ y) : ∃ more, body = x ++ more := by
  rcases List.append_eq_append_iff.mp he with ⟨more, rfl, hm⟩ | ⟨more, hbody, -⟩
  · cases more with
    | nil => exact ⟨[], by simp⟩
    | cons c more =>
        obtain ⟨-, hnil⟩ := List.cons.inj hm
        exact absurd (List.append_eq_nil_iff.mp hnil.symm).2 hy
  · exact ⟨more, hbody⟩

theorem ne_semicolon_of_blank {c : Char} (h : isAsciiBlank c = true) : c ≠ ';' := by
  rintro rfl
  revert h
  decide

/-- Nothing begins at a character that is part of no word and no semicolon. -/
theorem nothingBegins_of_not_wordChar {x y : Text} {c : Char} (hc : isWordChar c = false)
    (hne : c ≠ ';') : NothingBegins x (c :: y) := by
  intro d hd
  cases hd
  refine ⟨hne, fun hd => ?_⟩
  rw [hc] at hd
  cases hd

/-- Nothing begins at white space or at a parenthesis after it. -/
theorem nothingBegins_of_blanks (x : Text) {gap : Text} (inside : Text)
    (h : ∀ c ∈ gap, isAsciiBlank c = true) : NothingBegins x (gap ++ '(' :: inside) := by
  cases gap with
  | nil => exact nothingBegins_of_not_wordChar (by decide) (by decide)
  | cons c gap =>
      have hblank := h c List.mem_cons_self
      exact nothingBegins_of_not_wordChar (not_isWordChar_of_blank hblank)
        (ne_semicolon_of_blank hblank)

theorem Ahead.nothingBegins {word gap body after x y : Text}
    (h : Ahead word gap (body ++ ')' :: after)) (hbody : Closed body) (hy : y ≠ [])
    (he : word ++ gap ++ '(' :: body ++ [')'] = x ++ y) (hc : Closed x) : NothingBegins x y := by
  rw [List.append_assoc] at he
  rcases List.append_eq_append_iff.mp he with ⟨more, rfl, hm⟩ | ⟨more, hfront, rfl⟩
  · -- at the parenthesis or after it
    cases more with
    | nil =>
        rw [List.nil_append] at hm
        rw [← hm]
        exact nothingBegins_of_not_wordChar (by decide) (by decide)
    | cons c more =>
        obtain ⟨rfl, hrest⟩ := List.cons.inj hm
        obtain ⟨_, hmore⟩ := prefix_of_append_singleton hy hrest
        exact absurd (h.closed.append_iff.mp hc) (not_closed_inside hbody hmore)
  rcases List.append_eq_append_iff.mp hfront with ⟨before, rfl, hgap⟩ | ⟨rest, hword, rfl⟩
  · -- in the white space
    refine nothingBegins_of_blanks _ _ fun c hc => h.blanks c ?_
    rw [hgap]
    exact List.mem_append_right _ hc
  · cases rest with
    | nil => exact nothingBegins_of_blanks _ _ h.blanks
    | cons c rest => exact fun d hd => nothingBegins_of_word h.whole.all hword d hd

/-- Past its first character a piece has no place at the top level where a word or a semicolon
begins. -/
theorem Cut.inside {clause next : Bool} {t after x y : Text} {piece : Piece}
    (h : Cut clause t piece after next) (hs : piece.spelling = x ++ y) (hx : x ≠ [])
    (hc : Closed x) : NothingBegins x y := by
  intro d hd
  have hy : y ≠ [] := by
    rintro rfl
    cases hd
  obtain ⟨c, x, rfl⟩ := List.exists_cons_of_ne_nil hx
  cases h with
  | quoted hbody =>
      obtain ⟨rfl, he⟩ := List.cons.inj hs
      obtain ⟨more, hmore⟩ := prefix_of_append_singleton hy he
      exact absurd hc (not_closed_in_quotes hbody ⟨more, hmore.symm⟩)
  | unclosedQuote hbody =>
      obtain ⟨rfl, he⟩ := List.cons.inj hs
      exact absurd hc (not_closed_in_quotes hbody ⟨y, he.symm⟩)
  | group hbody =>
      obtain ⟨rfl, he⟩ := List.cons.inj hs
      obtain ⟨more, hmore⟩ := prefix_of_append_singleton hy he
      exact absurd hc (not_closed_inside hbody hmore)
  | semicolon =>
      obtain ⟨-, he⟩ := List.cons.inj hs
      exact absurd (List.append_eq_nil_iff.mp he.symm).2 hy
  | mark =>
      obtain ⟨-, he⟩ := List.cons.inj hs
      exact absurd (List.append_eq_nil_iff.mp he.symm).2 hy
  | clauseText hw => exact nothingBegins_of_word hw.all hs d hd
  | clauseWord hw _ => exact nothingBegins_of_word hw.all hs d hd
  | word hw _ _ => exact nothingBegins_of_word hw.all hs d hd
  | predicate ha _ _ hbody => exact ha.nothingBegins hbody hy hs hc d hd
  | call ha _ _ _ hbody => exact ha.nothingBegins hbody hy hs hc d hd

end Scan

end SeriesQuery
