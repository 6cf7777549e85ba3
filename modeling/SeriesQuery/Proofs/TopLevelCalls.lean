import SeriesQuery.Proofs.CallPlaces

/-!
# The scan finds the calls

A scan stands at the top level between any two pieces, with its flag up exactly inside a clause
(`AtTop`), until it has reached the end of the text. `Cut.atTop` is the step. From it follow, each
by induction on the pieces, that every span is at a call, that every call is the beginning of a
span, that a text cut to its end is balanced, and that a scan is stuck only in a text that is not
balanced or has a word before a parenthesis that names no function.
-/

namespace SeriesQuery

open Scan Text

namespace Scan

/-! ## One step -/

/-- Where the scan stands between a text and what is left. -/
structure AtTop (before rest : Text) (clause : Bool) : Prop where
  /-- Nothing is open. -/
  closed : Closed before
  /-- No word goes on here. -/
  apart : Apart before rest
  /-- The flag is up in clauses. -/
  clause_iff : clause = true ↔ InClause before rest

theorem AtTop.start (text : Text) : AtTop [] text false := by
  refine ⟨Closed.nil, fun c hc => ?_, ?_⟩
  · cases hc
  · refine ⟨fun h => ?_, fun h => absurd h (InClause.nil text)⟩
    cases h

theorem Cut.ne_nil {clause next : Bool} {t after : Text} {piece : Piece}
    (h : Cut clause t piece after next) : piece.spelling ≠ [] := by
  cases h with
  | clauseText hw => exact hw.ne_nil
  | clauseWord hw _ => exact hw.ne_nil
  | word hw _ _ => exact hw.ne_nil
  | _ => simp [Piece.spelling, CallText.spelling]

/-- What a piece opens it closes, but for a quote that takes all that is left. -/
theorem Cut.closed {clause next : Bool} {t after : Text} {piece : Piece}
    (h : Cut clause t piece after next) :
    Closed piece.spelling ∨ (after = [] ∧ Balanced piece.spelling) := by
  have hword : ∀ {w a : Text}, Word w a → Closed w := fun hw =>
    .of_plain fun c hc => isPlain_of_wordChar (hw.all c hc)
  cases h with
  | quoted hbody => exact .inl (.quotes hbody)
  | unclosedQuote hbody => exact .inr ⟨rfl, true, Nesting.openAfter?_quoted 0 hbody⟩
  | group hbody => exact .inl (.group hbody)
  | semicolon => exact .inl (by decide)
  | mark hplain _ _ =>
      refine .inl (.of_plain fun d hd => ?_)
      rw [List.mem_singleton.mp hd]
      exact hplain
  | clauseText hw => exact .inl (hword hw)
  | clauseWord hw _ => exact .inl (hword hw)
  | word hw _ _ => exact .inl (hword hw)
  | predicate ha _ _ hbody =>
      refine .inl ?_
      rw [Piece.spelling, List.append_assoc]
      exact ha.closed.append hbody.group
  | call ha _ _ _ hbody =>
      refine .inl ?_
      rw [Piece.spelling, CallText.spelling, List.append_assoc]
      exact ha.closed.append hbody.group

theorem apart_concat {front after : Text} {last : Char} (h : isWordChar last = false) :
    Apart (front ++ [last]) after := by
  intro c hc d _ hword
  rw [List.getLast?_concat] at hc
  cases hc
  rw [h] at hword
  cases hword

theorem Word.apart {word after : Text} (h : Word word after) : Apart word after :=
  fun _ _ d hd _ => h.ends d hd

/-- No word goes on from a piece to the next. -/
theorem Cut.apart {clause next : Bool} {t after : Text} {piece : Piece}
    (h : Cut clause t piece after next) : Apart piece.spelling after := by
  have hquote : isWordChar '\'' = false := by decide
  have hclose : isWordChar ')' = false := by decide
  have hsemi : isWordChar ';' = false := by decide
  cases h with
  | @quoted _ body => exact @apart_concat ('\'' :: body) _ _ hquote
  | unclosedQuote => exact fun c _ d hd => by cases hd
  | @group _ body => exact @apart_concat ('(' :: body) _ _ hclose
  | semicolon => exact @apart_concat [] _ _ hsemi
  | mark _ _ hc => exact @apart_concat [] _ _ hc
  | clauseText hw => exact hw.apart
  | clauseWord hw _ => exact hw.apart
  | word hw _ _ => exact hw.apart
  | predicate => exact apart_concat hclose
  | call => exact apart_concat hclose

/-! The flag, in four facts: it is taken over where no semicolon stands, a semicolon takes it down,
and only a keyword puts it up. -/

theorem Cut.next_of_clause {next : Bool} {t after : Text} {piece : Piece}
    (h : Cut true t piece after next) (hsemi : ∀ rest, t ≠ ';' :: rest) : next = true := by
  cases h with
  | semicolon => exact absurd rfl (hsemi _)
  | _ => rfl

theorem Word.append_ne_cons {word after rest : Text} {c : Char} (h : Word word after)
    (hc : isWordChar c = false) : word ++ after ≠ c :: rest := by
  intro he
  obtain ⟨d, more, rfl, hd⟩ := h.exists_cons
  rw [(List.cons.inj he).1, hc] at hd
  cases hd

theorem Cut.next_of_keyword {clause next : Bool} {keyword rest after : Text} {piece : Piece}
    (h : Cut clause (keyword ++ rest) piece after next) (hkey : Word keyword rest)
    (hw : isOneOf clauseWords keyword = true) : next = true := by
  generalize ht : keyword ++ rest = t at h
  have hother : ∀ {word after : Text}, Word word after → isOneOf clauseWords word = false →
      keyword ++ rest ≠ word ++ after := by
    intro word after hword hno he
    rw [(hkey.unique hword he).1, hno] at hw
    cases hw
  cases h with
  | quoted => exact absurd ht (hkey.append_ne_cons (by decide))
  | unclosedQuote => exact absurd ht (hkey.append_ne_cons (by decide))
  | group => exact absurd ht (hkey.append_ne_cons (by decide))
  | semicolon => exact absurd ht (hkey.append_ne_cons (by decide))
  | mark _ _ hc => exact absurd ht (hkey.append_ne_cons hc)
  | clauseText => rfl
  | clauseWord => rfl
  | word hword hno _ => exact absurd ht (hother hword hno)
  | predicate ha hno _ _ =>
      rw [List.append_assoc, List.append_assoc] at ht
      exact absurd ht (hother ha.whole hno)
  | call ha hno _ _ _ =>
      rw [List.append_assoc, List.append_assoc] at ht
      exact absurd ht (hother ha.whole hno)

theorem Cut.of_next {clause next : Bool} {t after : Text} {piece : Piece}
    (h : Cut clause t piece after next) (hnext : next = true) :
    (clause = true ∧ ∀ rest, t ≠ ';' :: rest)
      ∨ (Word piece.spelling after ∧ isOneOf clauseWords piece.spelling = true) := by
  have hne : ∀ {c : Char} {a b : Text}, c ≠ ';' → c :: a ≠ ';' :: b :=
    fun hc he => hc (List.cons.inj he).1
  cases h with
  | quoted => exact .inl ⟨hnext, fun rest => hne (by decide)⟩
  | unclosedQuote => exact .inl ⟨hnext, fun rest => hne (by decide)⟩
  | group => exact .inl ⟨hnext, fun rest => hne (by decide)⟩
  | mark _ hc _ => exact .inl ⟨hnext, fun rest => hne hc⟩
  | clauseText hw => exact .inl ⟨rfl, fun rest => hw.append_ne_cons (by decide)⟩
  | clauseWord hw hk => exact .inr ⟨hw, hk⟩
  | _ => cases hnext

/-- The flag is up after a piece exactly inside a clause. -/
theorem Cut.next_iff {clause next : Bool} {before t after : Text} {piece : Piece}
    (h : Cut clause t piece after next) (ht : AtTop before t clause) :
    next = true ↔ InClause (before ++ piece.spelling) after := by
  obtain rfl := h.spelling
  -- past its first character the piece has no semicolon at the top level
  have hsemi : (∀ rest, piece.spelling ++ after ≠ ';' :: rest) →
      ∀ a b, piece.spelling = a ++ ';' :: b → ¬ Closed (before ++ a) := by
    intro hne a b he hc
    cases a with
    | nil =>
        refine hne (b ++ after) ?_
        rw [he]
        rfl
    | cons c a =>
        have hplace := h.inside he (List.cons_ne_nil c a) (ht.closed.append_iff.mp hc)
        exact (hplace ';' rfl).1 rfl
  constructor
  · intro hnext
    rcases h.of_next hnext with ⟨hclause, hne⟩ | ⟨hword, hkey⟩
    · exact (ht.clause_iff.mp hclause).append (hsemi hne)
    · exact .start hword (ht.apart.take h.ne_nil) ht.closed hkey
  · intro hin
    rcases hin.of_append ht.apart with ⟨hin, hno⟩ | ⟨skipped, keyword, rest, he, hkey, hap, hc, hk⟩
    · have hclause := ht.clause_iff.mpr hin
      subst hclause
      refine h.next_of_clause fun rest he => ?_
      obtain ⟨c, more, hcons⟩ := List.exists_cons_of_ne_nil h.ne_nil
      rw [hcons] at he
      refine hno [] more ?_ (by rw [List.append_nil]; exact ht.closed)
      rw [hcons, (List.cons.inj he).1]
      rfl
    · cases skipped with
      | nil =>
          rw [he, List.nil_append, List.append_assoc] at h
          exact h.next_of_keyword hkey hk
      | cons c skipped =>
          -- a keyword past the first character would be a word that begins there
          obtain ⟨d, more, rfl, hd⟩ := hkey.exists_cons
          have hplace := h.inside he (List.cons_ne_nil c skipped) (ht.closed.append_iff.mp hc)
          have hnot := hap.not_wordChar (List.cons_ne_nil c skipped) ((hplace d rfl).2 hd) rfl
          rw [hd] at hnot
          cases hnot

/-- Between two pieces the scan stands at the top level. -/
theorem Cut.atTop {clause next : Bool} {before t after : Text} {piece : Piece}
    (h : Cut clause t piece after next) (ht : AtTop before t clause) :
    after = [] ∨ AtTop (before ++ piece.spelling) after next := by
  rcases h.closed with hc | ⟨hnil, -⟩
  · exact .inr ⟨ht.closed.append hc, h.apart.append_left h.ne_nil, h.next_iff ht⟩
  · exact .inl hnil

/-! ## The place where a scan stands -/

/-- An identifier before a parenthesis where the scan stands outside clauses. -/
theorem AtTop.callAt {before word gap inside : Text}
    (h : AtTop before (word ++ (gap ++ '(' :: inside)) false) (ha : Ahead word gap inside)
    (hw : isOneOf clauseWords word = false) : CallAt before word gap inside := by
  have hfree : ¬ InClause before (word ++ (gap ++ '(' :: inside)) := by
    intro hin
    cases h.clause_iff.mpr hin
  exact ⟨ha, h.apart.take ha.whole.ne_nil, h.closed, ha.whole.not_inClause h.apart hw hfree⟩

/-- Where a call begins and the scan stands, the next piece is the call, or the word is one that
makes none. -/
theorem Cut.of_callAt {clause next : Bool} {before word gap inside after : Text} {piece : Piece}
    (h : Cut clause (word ++ (gap ++ '(' :: inside)) piece after next)
    (ht : AtTop before (word ++ (gap ++ '(' :: inside)) clause)
    (hcall : CallAt before word gap inside) : isOneOf predicateWords word = true
      ∨ ∃ c, piece = .call c ∧ c.word = word ∧ c.gap = gap := by
  obtain ⟨ha, -, -, hfree⟩ := hcall
  have hword := ha.whole
  generalize he : word ++ (gap ++ '(' :: inside) = t at h
  cases h with
  | quoted => exact absurd he (hword.append_ne_cons (by decide))
  | unclosedQuote => exact absurd he (hword.append_ne_cons (by decide))
  | group => exact absurd he (hword.append_ne_cons (by decide))
  | semicolon => exact absurd he (hword.append_ne_cons (by decide))
  | mark _ _ hc => exact absurd he (hword.append_ne_cons hc)
  | clauseText _ =>
      -- the clause in which the scan stands reaches over the word
      refine absurd ((ht.clause_iff.mp rfl).append fun a b hab _ => ?_) hfree
      refine ne_semicolon_of_wordChar (hword.all ';' ?_) rfl
      rw [hab]
      exact List.mem_append_right _ List.mem_cons_self
  | clauseWord hw hk =>
      obtain ⟨rfl, -⟩ := hword.unique hw he
      exact absurd (InClause.start hword (ht.apart.take hword.ne_nil) ht.closed hk) hfree
  | word hw _ hnone =>
      obtain ⟨rfl, rfl⟩ := hword.unique hw he
      exact absurd ha (hnone gap inside rfl)
  | predicate ha' _ hp _ =>
      rw [List.append_assoc, List.append_assoc] at he
      obtain ⟨rfl, -, -⟩ := ha.unique ha' he
      exact .inl hp
  | @call c _ ha' _ _ _ _ =>
      rw [List.append_assoc, List.append_assoc] at he
      obtain ⟨rfl, rfl, -⟩ := ha.unique ha' he
      exact .inr ⟨c, rfl, rfl, rfl⟩

/-! ## All pieces -/

theorem not_cut_nil {clause next : Bool} {piece : Piece} {after : Text} :
    ¬ Cut clause [] piece after next := by
  intro h
  have hlen := h.spelling
  exact h.ne_nil (List.append_eq_nil_iff.mp hlen.symm).1

theorem Cuts.eq_nil {clause : Bool} {pieces : List Piece} (h : Cuts clause [] pieces) :
    pieces = [] := by
  cases h with
  | nil => rfl
  | cons hcut _ => exact absurd hcut not_cut_nil

/-- A text that is cut to its end is balanced. -/
theorem Cuts.balanced {clause : Bool} {t : Text} {pieces : List Piece}
    (h : Cuts clause t pieces) : Balanced t := by
  induction h with
  | nil => exact Closed.nil.balanced
  | cons hcut _ ih =>
      rw [hcut.spelling]
      rcases hcut.closed with hc | ⟨rfl, hb⟩
      · obtain ⟨quoted, hopen⟩ := ih
        exact ⟨quoted, (hc.openAfter? _).trans hopen⟩
      · rwa [List.append_nil]

/-- A scan is stuck in a text that is not balanced, or at a word before a parenthesis that names
no function. -/
theorem Stops.reason {clause : Bool} {before t : Text} (h : Stops clause t)
    (ht : AtTop before t clause) : ¬ Balanced (before ++ t)
      ∨ ∃ lead word gap inside, before ++ t = lead ++ (word ++ (gap ++ '(' :: inside))
        ∧ CallAt lead word gap inside ∧ isOneOf predicateWords word = false
        ∧ Operator.ofCallName? word = none := by
  induction h generalizing before with
  | here hstuck =>
      cases hstuck with
      | close => exact .inl (not_balanced_of_close ht.closed _)
      | group hnone => exact .inl (not_balanced_of_splitAtClose?_eq_none ht.closed hnone)
      | call ha hnone =>
          rw [← List.append_assoc]
          exact .inl (not_balanced_of_splitAtClose?_eq_none (ht.closed.append ha.closed) hnone)
      | @unknown word gap inside ha hw hp hname =>
          rw [List.append_assoc] at ht ⊢
          exact .inr ⟨before, word, gap, inside, rfl, ht.callAt ha hw, hp, hname⟩
  | later hcut hstops ih =>
      rcases hcut.atTop ht with rfl | ht'
      · cases hstops with
        | here hstuck =>
            generalize hnil : ([] : Text) = t at hstuck
            cases hstuck <;> simp at hnil
        | later hcut' _ => exact absurd hcut' not_cut_nil
      · rw [hcut.spelling, ← List.append_assoc]
        exact ih ht'

end Scan

/-! ## Spans -/

/-- A span is a call of the text: a call begins where the span does, its word names the function of
the span, and the span ends after the parenthesis that closes the call. -/
def Span.IsCallOf (text : Text) (s : Span) : Prop :=
  ∃ before after, text = before ++ s.call.spelling ++ after
    ∧ s.start = utf8Size before ∧ s.stop = utf8Size (before ++ s.call.spelling)
    ∧ CallAt before s.call.word s.call.gap (s.call.body ++ ')' :: after)
    ∧ isOneOf predicateWords s.call.word = false
    ∧ Operator.ofCallName? s.call.word = some (s.call.grouping, s.call.operator)
    ∧ Closed s.call.body

/-- One span after the other, none before a byte. -/
theorem spansFrom_ordered (position : ℕ) (pieces : List Piece) :
    (∀ s ∈ spansFrom position pieces, position ≤ s.start ∧ s.start < s.stop)
      ∧ (spansFrom position pieces).Pairwise fun a b => a.stop ≤ b.start := by
  induction pieces generalizing position with
  | nil => exact ⟨fun s hs => absurd hs List.not_mem_nil, .nil⟩
  | cons piece pieces ih =>
      cases piece with
      | plain t =>
          obtain ⟨hstart, hpair⟩ := ih (position + utf8Size t)
          refine ⟨fun s hs => ?_, hpair⟩
          have hs := hstart s hs
          omega
      | call c =>
          obtain ⟨hstart, hpair⟩ := ih (position + utf8Size c.spelling)
          have hsize : 0 < utf8Size c.spelling := by
            have hparen : 0 < '('.utf8Size := by decide
            unfold CallText.spelling
            simp only [utf8Size_append, utf8Size]
            omega
          refine ⟨fun s hs => ?_, List.pairwise_cons.mpr ⟨fun s hs => (hstart s hs).1, hpair⟩⟩
          rcases List.mem_cons.mp hs with rfl | hs
          · exact ⟨le_refl _, by dsimp only; omega⟩
          · have hs := hstart s hs
            omega

namespace Scan

/-- Every span is a call of the text. -/
theorem Cuts.isCallOf {clause : Bool} {before t : Text} {pieces : List Piece}
    (h : Cuts clause t pieces) (ht : AtTop before t clause) :
    ∀ s ∈ spansFrom (utf8Size before) pieces, s.IsCallOf (before ++ t) := by
  induction h generalizing before with
  | nil => exact fun s hs => absurd hs List.not_mem_nil
  | @cons clause next t after piece pieces hcut hcuts ih =>
      have hlater : ∀ s ∈ spansFrom (utf8Size (before ++ piece.spelling)) pieces,
          s.IsCallOf (before ++ t) := by
        rcases hcut.atTop ht with rfl | ht'
        · rw [hcuts.eq_nil]
          exact fun s hs => absurd hs List.not_mem_nil
        · rw [hcut.spelling, ← List.append_assoc]
          exact ih ht'
      rw [utf8Size_append] at hlater
      intro s hs
      cases piece with
      | plain body => exact hlater s hs
      | call c =>
          rcases List.mem_cons.mp hs with rfl | hs
          · cases hcut with
            | call ha hw hp hname hbody =>
                rw [List.append_assoc, List.append_assoc] at ht
                refine ⟨before, after, ?_, rfl, ?_, ht.callAt ha hw, hp, hname, hbody⟩
                · simp [CallText.spelling]
                · rw [utf8Size_append]
          · exact hlater s hs

/-- Every call of the text that begins where the scan stands or later is the beginning of a span,
but for the words that make none. -/
theorem Cuts.exists_span {clause : Bool} {before t : Text} {pieces : List Piece}
    (h : Cuts clause t pieces) (ht : AtTop before t clause) {skipped word gap inside : Text}
    (he : t = skipped ++ (word ++ (gap ++ '(' :: inside)))
    (hcall : CallAt (before ++ skipped) word gap inside) : isOneOf predicateWords word = true
      ∨ ∃ s ∈ spansFrom (utf8Size before) pieces,
          s.start = utf8Size (before ++ skipped) ∧ s.call.word = word := by
  induction h generalizing before skipped with
  | nil =>
      obtain ⟨c, rest, rfl, -⟩ := hcall.ahead.whole.exists_cons
      cases skipped <;> cases he
  | @cons clause next t after piece pieces hcut hcuts ih =>
      have hpast : ∀ more, skipped = piece.spelling ++ more →
          after = more ++ (word ++ (gap ++ '(' :: inside)) → isOneOf predicateWords word = true
            ∨ ∃ s ∈ spansFrom (utf8Size before) (piece :: pieces),
                s.start = utf8Size (before ++ skipped) ∧ s.call.word = word := by
        rintro more rfl hafter
        rcases hcut.atTop ht with rfl | ht'
        · obtain ⟨c, rest, rfl, -⟩ := hcall.ahead.whole.exists_cons
          cases more <;> cases hafter
        · rw [← List.append_assoc] at hcall ⊢
          rcases ih ht' hafter hcall with hp | ⟨s, hs, hstart, hword⟩
          · exact .inl hp
          · refine .inr ⟨s, ?_, hstart, hword⟩
            rw [utf8Size_append] at hs
            cases piece with
            | plain body => exact hs
            | call c => exact List.mem_cons_of_mem _ hs
      have hparts := hcut.spelling.symm.trans he
      rcases List.append_eq_append_iff.mp hparts with ⟨more, hmore, hafter⟩ | ⟨more, hpiece, hrest⟩
      · exact hpast more hmore hafter
      cases more with
      | nil =>
          rw [List.append_nil] at hpiece
          exact hpast [] (by rw [hpiece, List.append_nil]) hrest.symm
      | cons d more =>
          cases skipped with
          | nil =>
              rw [List.append_nil] at hcall ⊢
              rw [List.nil_append] at he
              subst he
              rcases hcut.of_callAt ht hcall with hp | ⟨c, rfl, hword, -⟩
              · exact .inl hp
              · exact .inr ⟨_, List.mem_cons_self, rfl, hword⟩
          | cons c skipped =>
              -- no word begins past the first character of a piece
              obtain ⟨e, rest, rfl, hword⟩ := hcall.ahead.whole.exists_cons
              obtain ⟨rfl, -⟩ := List.cons.inj hrest
              have hplace := hcut.inside hpiece (List.cons_ne_nil c skipped)
                (ht.closed.append_iff.mp hcall.top)
              have hnot := hcall.apart.not_wordChar (List.cons_ne_nil c skipped)
                ((hplace e rfl).2 hword) rfl
              rw [hword] at hnot
              cases hnot

end Scan

/-! ## The scan -/

/-- A scan that succeeds gives the calls of the text: the spans are in order, each is a call, and
every place where a call begins is the beginning of one of them, unless its word makes no call. A
scan fails exactly if the parentheses outside quotes do not match or a word that stands where a
call would names no function. -/
theorem scan_finds_calls (text : Text) :
    (∀ pieces, scan text = .ok pieces →
      (spans pieces).Pairwise (fun a b => a.stop ≤ b.start)
        ∧ (∀ s ∈ spans pieces, s.start < s.stop ∧ s.stop ≤ utf8Size text ∧ s.IsCallOf text)
        ∧ ∀ lead word gap inside, text = lead ++ (word ++ (gap ++ '(' :: inside)) →
            CallAt lead word gap inside → isOneOf predicateWords word = true
              ∨ ∃ s ∈ spans pieces, s.start = utf8Size lead ∧ s.call.word = word)
    ∧ ((∃ f, scan text = .error f) ↔ ¬ Balanced text
        ∨ ∃ lead word gap inside, text = lead ++ (word ++ (gap ++ '(' :: inside))
          ∧ CallAt lead word gap inside ∧ isOneOf predicateWords word = false
          ∧ Operator.ofCallName? word = none) := by
  have hstart := AtTop.start text
  have hcomplete : ∀ pieces, scan text = .ok pieces → ∀ lead word gap inside,
      text = lead ++ (word ++ (gap ++ '(' :: inside)) → CallAt lead word gap inside →
        isOneOf predicateWords word = true
          ∨ ∃ s ∈ spans pieces, s.start = utf8Size lead ∧ s.call.word = word :=
    fun pieces hok lead word gap inside he hcall => (cuts_of_scan hok).exists_span hstart he hcall
  refine ⟨fun pieces hok => ⟨(spansFrom_ordered 0 pieces).2, fun s hs => ?_, hcomplete pieces hok⟩,
    ⟨?_, ?_⟩⟩
  · have hcall := (cuts_of_scan hok).isCallOf hstart s hs
    refine ⟨((spansFrom_ordered 0 pieces).1 s hs).2, ?_, hcall⟩
    obtain ⟨before, after, he, -, hstop, -⟩ := hcall
    rw [List.nil_append] at he
    rw [hstop, he, utf8Size_append _ after]
    exact Nat.le_add_right _ _
  · rintro ⟨f, herror⟩
    exact (stops_of_scan herror).reason hstart
  · intro hreason
    cases hok : scan text with
    | error f => exact ⟨f, rfl⟩
    | ok pieces =>
        rcases hreason with hb | ⟨lead, word, gap, inside, he, hcall, hp, hname⟩
        · exact absurd (cuts_of_scan hok).balanced hb
        · rcases hcomplete pieces hok lead word gap inside he hcall with hp' | ⟨s, hs, -, rfl⟩
          · rw [hp] at hp'
            cases hp'
          · obtain ⟨-, -, -, -, -, -, -, hname', -⟩ := (cuts_of_scan hok).isCallOf hstart s hs
            rw [hname] at hname'
            cases hname'

/-- Two calls, between them a clause with a word before a parenthesis, and an operand at the end. -/
theorem scan_finds_calls_around_clause :
    let text := of "Max(PPA:1); FILTER T WHERE Len (x) > 3; Sum (')', y) IN (Foo(z))"
    ∃ pieces, scan text = .ok pieces
      ∧ (spans pieces).map (fun s => (s.start, s.stop)) = [(0, 10), (40, 52)]
      ∧ ∀ s ∈ spans pieces, s.IsCallOf text := by
  intro text
  have heval : (scan text).toOption.map (fun pieces =>
      (spans pieces).map fun s => (s.start, s.stop)) = some [(0, 10), (40, 52)] := by
    rw [scan_eq]
    decide +kernel
  cases hok : scan text with
  | error f =>
      rw [hok] at heval
      cases heval
  | ok pieces =>
      rw [hok] at heval
      have hcalls := ((scan_finds_calls text).1 pieces hok).2.1
      exact ⟨pieces, rfl, Option.some.inj heval, fun s hs => (hcalls s hs).2.2⟩

end SeriesQuery
