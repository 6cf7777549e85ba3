import Mathlib.Data.List.TakeWhile
import SeriesQuery.Expression.Basic
import SeriesQuery.Proofs.CharacterClasses
import SeriesQuery.Proofs.Parentheses

/-!
# How a text is cut into pieces

`firstPiece` decides by one character, then by the word that begins with it, then by what follows
the word. `Cut` lists the outcomes with what each says of the text, so that nothing after this
module looks at the decisions again, and `Stuck` lists the places where the text can be cut no
further. `Cuts` and `Stops` put the steps together: a text is either cut to its end or up to a
place where the scan is stuck.
-/

namespace SeriesQuery

/-! ## Words -/

namespace Scan

/-- Word characters up to a place where there is no other. -/
structure Word (word after : Text) : Prop where
  /-- There is at least one. -/
  ne_nil : word ≠ []
  /-- All of them are word characters. -/
  all : ∀ c ∈ word, isWordChar c = true
  /-- The word ends here. -/
  ends : ∀ c ∈ after.head?, isWordChar c = false

/-- A call, or a word with an operand, lies ahead: a word and then, perhaps after white space, a
parenthesis. -/
structure Ahead (word gap inside : Text) : Prop where
  /-- The word is whole. -/
  whole : Word word (gap ++ '(' :: inside)
  /-- It may name a function. -/
  identifier : isIdentifier word = true
  /-- White space alone stands between the two. -/
  blanks : ∀ c ∈ gap, Text.isAsciiBlank c = true

theorem Word.takeWhile {c : Char} {rest : Text} (h : isWordChar c = true) :
    Word ((c :: rest).takeWhile isWordChar) ((c :: rest).dropWhile isWordChar) := by
  refine ⟨?_, fun d hd => List.mem_takeWhile_imp hd, fun d hd => ?_⟩
  · rw [List.takeWhile_cons_of_pos h]
    exact List.cons_ne_nil _ _
  · have hnot := List.head?_dropWhile_not isWordChar (c :: rest)
    rw [Option.mem_def.mp hd] at hnot
    simpa using hnot

theorem Word.span {word after : Text} (h : Word word after) :
    (word ++ after).takeWhile isWordChar = word
      ∧ (word ++ after).dropWhile isWordChar = after :=
  ⟨Text.takeWhile_append_of_head? h.all h.ends, Text.dropWhile_append_of_head? h.all h.ends⟩

/-- The same text holds but one word at its front. -/
theorem Word.unique {word word' after after' : Text} (h : Word word after)
    (h' : Word word' after') (he : word ++ after = word' ++ after') :
    word = word' ∧ after = after' := by
  obtain ⟨hword, hafter⟩ := h.span
  rw [he] at hword hafter
  exact ⟨hword.symm.trans h'.span.1, hafter.symm.trans h'.span.2⟩

theorem not_isWordChar_of_blank {c : Char} (h : Text.isAsciiBlank c = true) :
    isWordChar c = false := by
  unfold isWordChar
  rw [h]
  rfl

theorem isPlain_of_wordChar {c : Char} (h : isWordChar c = true) :
    Text.Nesting.isPlain c = true := by
  unfold isWordChar at h
  unfold Text.Nesting.isPlain
  grind

theorem isPlain_of_blank {c : Char} (h : Text.isAsciiBlank c = true) :
    Text.Nesting.isPlain c = true := by
  simp only [Text.isAsciiBlank, Bool.or_eq_true, beq_iff_eq, or_assoc] at h
  rcases h with rfl | rfl | rfl | rfl | rfl <;> decide

/-- Neither a word nor white space after it opens or closes anything. -/
theorem Ahead.closed {word gap inside : Text} (h : Ahead word gap inside) :
    Text.Closed (word ++ gap) := by
  refine .of_plain fun c hc => ?_
  rcases List.mem_append.mp hc with hc | hc
  · exact isPlain_of_wordChar (h.whole.all c hc)
  · exact isPlain_of_blank (h.blanks c hc)

theorem Ahead.span {word gap inside : Text} (h : Ahead word gap inside) :
    (gap ++ '(' :: inside).takeWhile Text.isAsciiBlank = gap
      ∧ (gap ++ '(' :: inside).dropWhile Text.isAsciiBlank = '(' :: inside := by
  have hparen : ∀ c ∈ ('(' :: inside).head?, Text.isAsciiBlank c = false := by
    rintro c ⟨⟩
    decide
  exact ⟨Text.takeWhile_append_of_head? h.blanks hparen,
    Text.dropWhile_append_of_head? h.blanks hparen⟩

/-- The same text holds but one word with a parenthesis at its front. -/
theorem Ahead.unique {word word' gap gap' inside inside' : Text} (h : Ahead word gap inside)
    (h' : Ahead word' gap' inside')
    (he : word ++ (gap ++ '(' :: inside) = word' ++ (gap' ++ '(' :: inside')) :
    word = word' ∧ gap = gap' ∧ inside = inside' := by
  obtain ⟨hword, hrest⟩ := h.whole.unique h'.whole he
  obtain ⟨hgap, hparen⟩ := h.span
  rw [hrest] at hgap hparen
  have hinside := hparen.symm.trans h'.span.2
  exact ⟨hword, hgap.symm.trans h'.span.1, (List.cons.inj hinside).2⟩

/-! ## One piece -/

/-- A piece at the front of a text, what follows it, and whether the text before and after it
lies in a clause. -/
inductive Cut : Bool → Text → Piece → Text → Bool → Prop
  /-- A text in quotes. -/
  | quoted {clause : Bool} {body after : Text} : '\'' ∉ body →
      Cut clause ('\'' :: body ++ '\'' :: after) (.plain ('\'' :: body ++ ['\''])) after clause
  /-- A quote that is not closed takes everything. -/
  | unclosedQuote {clause : Bool} {body : Text} : '\'' ∉ body →
      Cut clause ('\'' :: body) (.plain ('\'' :: body)) [] clause
  /-- Parentheses of no call. -/
  | group {clause : Bool} {body after : Text} : Text.Closed body →
      Cut clause ('(' :: body ++ ')' :: after) (.plain ('(' :: body ++ [')'])) after clause
  /-- A semicolon ends a clause. -/
  | semicolon {clause : Bool} {after : Text} : Cut clause (';' :: after) (.plain [';']) after false
  /-- Any other character that is not part of a word. -/
  | mark {clause : Bool} {c : Char} {after : Text} : Text.Nesting.isPlain c = true → c ≠ ';' →
      isWordChar c = false → Cut clause (c :: after) (.plain [c]) after clause
  /-- A word in a clause. -/
  | clauseText {word after : Text} : Word word after →
      Cut true (word ++ after) (.plain word) after true
  /-- A word that begins a clause. -/
  | clauseWord {word after : Text} : Word word after → isOneOf clauseWords word = true →
      Cut false (word ++ after) (.plain word) after true
  /-- A word with no parenthesis after it that would make a call of it. -/
  | word {word after : Text} : Word word after → isOneOf clauseWords word = false →
      (∀ gap inside, after = gap ++ '(' :: inside → ¬ Ahead word gap inside) →
      Cut false (word ++ after) (.plain word) after false
  /-- A word with its operand. -/
  | predicate {word gap body after : Text} : Ahead word gap (body ++ ')' :: after) →
      isOneOf clauseWords word = false → isOneOf predicateWords word = true →
      Text.Closed body →
      Cut false (word ++ gap ++ '(' :: body ++ ')' :: after)
        (.plain (word ++ gap ++ '(' :: body ++ [')'])) after false
  /-- A call. -/
  | call {c : CallText} {after : Text} : Ahead c.word c.gap (c.body ++ ')' :: after) →
      isOneOf clauseWords c.word = false → isOneOf predicateWords c.word = false →
      Operator.ofCallName? c.word = some (c.grouping, c.operator) → Text.Closed c.body →
      Cut false (c.word ++ c.gap ++ '(' :: c.body ++ ')' :: after) (.call c) after false

/-- A text from whose front no piece can be cut. -/
inductive Stuck : Bool → Text → Prop
  /-- A parenthesis that was not opened. -/
  | close {clause : Bool} {rest : Text} : Stuck clause (')' :: rest)
  /-- A parenthesis of no call that is not closed. -/
  | group {clause : Bool} {rest : Text} : Text.splitAtClose? 1 false rest = none →
      Stuck clause ('(' :: rest)
  /-- The parenthesis after a word is not closed. -/
  | call {word gap inside : Text} : Ahead word gap inside →
      Text.splitAtClose? 1 false inside = none → Stuck false (word ++ gap ++ '(' :: inside)
  /-- The word before a parenthesis names no function. -/
  | unknown {word gap inside : Text} : Ahead word gap inside →
      isOneOf clauseWords word = false → isOneOf predicateWords word = false →
      Operator.ofCallName? word = none → Stuck false (word ++ gap ++ '(' :: inside)

theorem splitQuoted_eq (t : Text) :
    (∃ body after, t = body ++ '\'' :: after ∧ '\'' ∉ body
      ∧ splitQuoted t = (body ++ ['\''], after))
    ∨ ('\'' ∉ t ∧ splitQuoted t = (t, [])) := by
  induction t with
  | nil => exact .inr ⟨List.not_mem_nil, rfl⟩
  | cons c rest ih =>
      unfold splitQuoted
      split
      · next hc =>
          refine .inl ⟨[], rest, ?_, List.not_mem_nil, ?_⟩
          · rw [beq_iff_eq.mp hc]
            rfl
          · rw [beq_iff_eq.mp hc]
            rfl
      · next hc =>
          have hne : '\'' ≠ c := fun h => hc (beq_iff_eq.mpr h.symm)
          rcases ih with ⟨body, after, rfl, hbody, he⟩ | ⟨hrest, he⟩
          · rw [he]
            refine .inl ⟨c :: body, after, rfl, ?_, rfl⟩
            exact List.not_mem_cons_of_ne_of_not_mem hne hbody
          · rw [he]
            exact .inr ⟨List.not_mem_cons_of_ne_of_not_mem hne hrest, rfl⟩

/-- The first step of a scan at a word. -/
theorem firstWord_cases (clause : Bool) {c : Char} {rest : Text} (hc : isWordChar c = true) :
    (∃ piece after next, firstWord clause (c :: rest) = .ok (piece, after, next)
      ∧ Cut clause (c :: rest) piece after next)
    ∨ ∃ o, firstWord clause (c :: rest) = .error o ∧ Stuck clause (c :: rest) := by
  have hword : Word ((c :: rest).takeWhile isWordChar) ((c :: rest).dropWhile isWordChar) :=
    .takeWhile hc
  have hsplit : (c :: rest).takeWhile isWordChar ++ (c :: rest).dropWhile isWordChar = c :: rest :=
    List.takeWhile_append_dropWhile
  unfold firstWord
  dsimp only
  generalize (c :: rest).takeWhile isWordChar = word at hword hsplit ⊢
  generalize (c :: rest).dropWhile isWordChar = tail at hword hsplit ⊢
  rw [← hsplit]
  split
  · next hclause =>
      rw [hclause]
      exact .inl ⟨_, _, _, rfl, .clauseText hword⟩
  next hclause =>
  rw [Bool.eq_false_iff.mpr hclause]
  split
  · next hw => exact .inl ⟨_, _, _, rfl, .clauseWord hword hw⟩
  next hw =>
  replace hw := Bool.eq_false_iff.mpr hw
  have hgap : ∀ d ∈ tail.takeWhile Text.isAsciiBlank, Text.isAsciiBlank d = true :=
    fun d hd => List.mem_takeWhile_imp hd
  have htail : tail.takeWhile Text.isAsciiBlank ++ tail.dropWhile Text.isAsciiBlank = tail :=
    List.takeWhile_append_dropWhile
  split
  · next inside hinside =>
      rw [hinside] at htail
      generalize tail.takeWhile Text.isAsciiBlank = gap at hgap htail ⊢
      subst htail
      split
      · next hi =>
          refine .inl ⟨_, _, _, rfl, .word hword hw fun g i _ ha => ?_⟩
          rw [ha.identifier] at hi
          cases hi
      next hi =>
      have ha : Ahead word gap inside := ⟨hword, by simpa using hi, hgap⟩
      rw [← List.append_assoc]
      split
      · next hp =>
          split
          · next body after hclose =>
              obtain ⟨rfl, hbody⟩ := Text.closed_of_splitAtClose? hclose
              refine .inl ⟨_, _, _, rfl, ?_⟩
              have hcut := Cut.predicate ha hw hp hbody
              simpa only [List.append_assoc, List.cons_append] using hcut
          · next hclose => exact .inr ⟨_, rfl, .call ha hclose⟩
      next hp =>
      replace hp := Bool.eq_false_iff.mpr hp
      split
      · next hname => exact .inr ⟨_, rfl, .unknown ha hw hp hname⟩
      · next grouping operator hname =>
          split
          · next body after hclose =>
              obtain ⟨rfl, hbody⟩ := Text.closed_of_splitAtClose? hclose
              refine .inl ⟨_, _, _, rfl, ?_⟩
              have hcut := Cut.call (c := ⟨word, gap, body, grouping, operator⟩) ha hw hp hname
                hbody
              simpa only [List.append_assoc, List.cons_append] using hcut
          · next hclose => exact .inr ⟨_, rfl, .call ha hclose⟩
  · next hnone =>
      refine .inl ⟨_, _, _, rfl, .word hword hw fun g inside he ha => ?_⟩
      refine hnone inside ?_
      rw [he, List.dropWhile_append_of_pos ha.blanks]
      exact List.dropWhile_cons_of_neg (by decide)

/-- The first step of a scan. -/
theorem firstPiece_cases (clause : Bool) (c : Char) (rest : Text) :
    (∃ piece after next, firstPiece clause c rest = .ok (piece, after, next)
      ∧ Cut clause (c :: rest) piece after next)
    ∨ ∃ o, firstPiece clause c rest = .error o ∧ Stuck clause (c :: rest) := by
  unfold firstPiece
  split
  · next hc =>
      rw [beq_iff_eq.mp hc]
      rcases splitQuoted_eq rest with ⟨body, after, rfl, hbody, he⟩ | ⟨hrest, he⟩
      · rw [he]
        exact .inl ⟨_, _, _, rfl, .quoted hbody⟩
      · rw [he]
        exact .inl ⟨_, _, _, rfl, .unclosedQuote hrest⟩
  next hquote =>
  split
  · next hc =>
      rw [beq_iff_eq.mp hc]
      split
      · next body after hclose =>
          obtain ⟨rfl, hbody⟩ := Text.closed_of_splitAtClose? hclose
          exact .inl ⟨_, _, _, rfl, .group hbody⟩
      · next hclose => exact .inr ⟨_, rfl, .group hclose⟩
  next hopen =>
  split
  · next hc =>
      rw [beq_iff_eq.mp hc]
      exact .inr ⟨_, rfl, .close⟩
  next hclosing =>
  split
  · next hc =>
      rw [beq_iff_eq.mp hc]
      exact .inl ⟨_, _, _, rfl, .semicolon⟩
  next hsemi =>
  split
  · next hc => exact firstWord_cases clause hc
  · next hc =>
      refine .inl ⟨_, _, _, rfl, .mark ?_ ?_ (Bool.eq_false_iff.mpr hc)⟩
      · simp [Text.Nesting.isPlain, hquote, hopen, hclosing]
      · exact fun h => hsemi (beq_iff_eq.mpr h)

/-- What is cut off and what follows it make up the text. -/
theorem Cut.spelling {clause next : Bool} {t after : Text} {piece : Piece}
    (h : Cut clause t piece after next) : t = piece.spelling ++ after := by
  cases h <;> simp [Piece.spelling, CallText.spelling]

/-! ## All pieces -/

/-- A text is cut into pieces to its end. -/
inductive Cuts : Bool → Text → List Piece → Prop
  /-- Nothing is left. -/
  | nil {clause : Bool} : Cuts clause [] []
  /-- A piece, and those of what follows it. -/
  | cons {clause next : Bool} {t after : Text} {piece : Piece} {pieces : List Piece} :
      Cut clause t piece after next → Cuts next after pieces → Cuts clause t (piece :: pieces)

/-- A text is cut up to a place where the scan is stuck. -/
inductive Stops : Bool → Text → Prop
  /-- At the front. -/
  | here {clause : Bool} {t : Text} : Stuck clause t → Stops clause t
  /-- After a piece. -/
  | later {clause next : Bool} {t after : Text} {piece : Piece} :
      Cut clause t piece after next → Stops next after → Stops clause t

theorem pieces_cases (clause : Bool) (t : Text) :
    (∃ ps, pieces clause t = .ok ps ∧ Cuts clause t ps)
    ∨ ∃ o, pieces clause t = .error o ∧ Stops clause t := by
  fun_induction pieces clause t with
  | case1 clause => exact .inl ⟨[], rfl, .nil⟩
  | case2 clause c rest o hfirst =>
      rcases firstPiece_cases clause c rest with ⟨_, _, _, he, -⟩ | ⟨_, -, hstuck⟩
      · rw [hfirst] at he
        cases he
      · exact .inr ⟨o, rfl, .here hstuck⟩
  | case3 clause c rest piece after next hfirst o hmore ih =>
      rcases firstPiece_cases clause c rest with ⟨_, _, _, he, hcut⟩ | ⟨_, he, -⟩
      · cases hfirst.symm.trans he
        rcases ih with ⟨_, he, -⟩ | ⟨_, -, hstops⟩
        · rw [hmore] at he
          cases he
        · exact .inr ⟨o, rfl, .later hcut hstops⟩
      · rw [hfirst] at he
        cases he
  | case4 clause c rest piece after next hfirst more hmore ih =>
      rcases firstPiece_cases clause c rest with ⟨_, _, _, he, hcut⟩ | ⟨_, he, -⟩
      · cases hfirst.symm.trans he
        rcases ih with ⟨ps, he, hcuts⟩ | ⟨_, he, -⟩
        · cases hmore.symm.trans he
          exact .inl ⟨_, rfl, .cons hcut hcuts⟩
        · rw [hmore] at he
          cases he
      · rw [hfirst] at he
        cases he

end Scan

/-- A scan that succeeds has cut the text to its end. -/
theorem cuts_of_scan {text : Text} {pieces : List Piece} (h : scan text = .ok pieces) :
    Scan.Cuts false text pieces := by
  unfold scan at h
  rcases Scan.pieces_cases false text with ⟨ps, he, hcuts⟩ | ⟨o, he, -⟩
  · rw [he] at h
    cases h
    exact hcuts
  · rw [he] at h
    cases h

/-- A scan that fails has met a place where it is stuck. -/
theorem stops_of_scan {text : Text} {f : Fault} (h : scan text = .error f) :
    Scan.Stops false text := by
  unfold scan at h
  rcases Scan.pieces_cases false text with ⟨ps, he, -⟩ | ⟨o, -, hstops⟩
  · rw [he] at h
    cases h
  · exact hstops

/-- An expression that can be read is cut into pieces, and each of the calls among them is one. -/
theorem Expression.parse_ok {text : Text} {e : Expression} (h : parse text = .ok e) :
    ∃ pieces calls, scan (Text.trim text) = .ok pieces
      ∧ callsOf (callTexts pieces) = .ok calls ∧ e = ⟨calls, SeriesQuery.remainder pieces⟩ := by
  unfold parse at h
  cases hscan : scan (Text.trim text) with
  | error f =>
      rw [hscan] at h
      cases h
  | ok pieces =>
      rw [hscan] at h
      change (callsOf (callTexts pieces) >>= _) = _ at h
      cases hcalls : callsOf (callTexts pieces) with
      | error f =>
          rw [hcalls] at h
          cases h
      | ok calls =>
          rw [hcalls] at h
          cases h
          exact ⟨pieces, calls, rfl, hcalls, rfl⟩

/-! ## Cutting by a number of characters

`pieces` recurses on the length of what is left, which nothing can evaluate in a proof; the same by
a recursion on a number can be. -/

namespace Scan

/-- The pieces of a text of at most so many characters. -/
def piecesWithin : ℕ → Bool → Text → Except Obstacle (List Piece)
  | _, _, [] => .ok []
  | 0, _, _ :: _ => .ok []
  | n + 1, inClause, c :: rest => do
    let (piece, after, clause) ← firstPiece inClause c rest
    let more ← piecesWithin n clause after
    return piece :: more

theorem pieces_eq_piecesWithin {n : ℕ} {inClause : Bool} {t : Text} (h : t.length ≤ n) :
    pieces inClause t = piecesWithin n inClause t := by
  induction n generalizing inClause t with
  | zero =>
      rw [List.eq_nil_of_length_eq_zero (Nat.le_zero.mp h), pieces]
      rfl
  | succ n ih =>
      cases t with
      | nil =>
          rw [pieces]
          rfl
      | cons c rest =>
          rw [List.length_cons] at h
          rw [pieces, piecesWithin]
          split
          · next o he =>
              rw [he]
              rfl
          · next piece after clause he =>
              have hlt := length_lt_of_firstPiece he
              rw [he, ih (by omega)]
              show _ = piecesWithin n clause after >>= fun more => pure (piece :: more)
              cases piecesWithin n clause after with
              | error o => rfl
              | ok more => rfl

end Scan

theorem scan_eq (text : Text) : scan text =
    (Scan.piecesWithin text.length false text).mapError (Scan.Obstacle.toFault text) := by
  unfold scan
  rw [Scan.pieces_eq_piecesWithin (le_refl _)]
  cases Scan.piecesWithin text.length false text with
  | error o => rfl
  | ok pieces => rfl

end SeriesQuery
