import SeriesQuery.Proofs.SelectionSpelling

/-!
# What a clause is read from

A clause is read by cutting pieces off it, and a piece that is cut off may be returned or dropped.
`ClauseHead` and `ClauseTail` list the pieces of a `FILTER` clause as they may be written, and every
accepted clause is made of them, with one addition: behind the field and direction of its order
there may be a text that nothing reads. The grammar of clauses has no such text. A clause is one of
the grammar exactly if white space is all that is left unread.

What is white space between two pieces may be missing where the pieces cannot run together, as
between a number of rows and the table, or between a quoted value and `ORDER BY`.
-/

namespace SeriesQuery.Selection

open Text

/-- Characters of a class, possibly none. -/
structure Run (p : Char → Bool) where
  text : Text
  all : ∀ c ∈ text, p c = true

/-- The pieces from `FILTER` to `WHERE`. -/
structure ClauseHead where
  filter : Cased filterWord
  filterGap : Gap
  leading : Option (TopText × Run isSeparator)
  table : Name
  tableGap : Gap
  whereWord : Cased Selection.whereWord
  whereGap : Gap
  apart : ∀ l ∈ leading, ∀ c ∈ (l.2.text ++ table.text).head?, c.isDigit = false

namespace ClauseHead

def leadingText (h : ClauseHead) : Text :=
  match h.leading with
  | none => []
  | some (top, run) => top.text ++ run.text

/-- From the table on, with a tail. -/
def source (h : ClauseHead) (tail : Text) : Text :=
  h.table.text ++ (h.tableGap.text ++ (h.whereWord.text ++ (h.whereGap.text ++ tail)))

/-- The whole clause with a tail. -/
def text (h : ClauseHead) (tail : Text) : Text :=
  h.filter.text ++ (h.filterGap.text ++ (h.leadingText ++ h.source tail))

def rows (h : ClauseHead) : Option Nat := h.leading.map fun (top, _) => top.count.value

end ClauseHead

/-- The pieces after `WHERE`. -/
structure ClauseTail where
  before : Run isBlank
  predicate : Text
  isSolid : IsSolid predicate
  after : Run isBlank
  order : Option OrderText
  trailing : Option TopText

namespace ClauseTail

def orderText (w : ClauseTail) : Text := (w.order.map OrderText.text).getD []

def trailingText (w : ClauseTail) : Text := (w.trailing.map TopText.text).getD []

/-- The pieces before the number of rows at the end, with a text behind the order. -/
def body (w : ClauseTail) (unread : Text) : Text :=
  w.before.text ++ (w.predicate ++ (w.after.text ++ (w.orderText ++ unread)))

end ClauseTail

/-- The pieces of a `FILTER` clause. -/
structure ReadClause where
  head : ClauseHead
  tail : ClauseTail

namespace ReadClause

def selection (w : ReadClause) : Selection where
  table := w.head.table.text
  predicate := w.tail.predicate
  order := w.tail.order.map (·.key)
  take := (w.tail.trailing.map (·.count.value)).or w.head.rows

/-- The pieces make up a text, with some text behind the order that belongs to none of them. -/
structure Spells (w : ReadClause) (unread t : Text) : Prop where
  text : t = w.head.text (w.tail.body unread ++ w.tail.trailingText)
  apart : w.tail.trailing.isSome = true →
    ∀ c ∈ (w.tail.body unread).getLast?, joinsWord c = false

end ReadClause

/-- What follows the field of an `ORDER BY` and its direction, if it gives one. -/
def orderRest (clause : Text) : Text :=
  match ((afterWord? orderWord clause).bind (afterSetOffWord? byWord)).bind identifier? with
  | none => []
  | some (_, rest) =>
    ((afterSpacedWord? descWord rest).or (afterSpacedWord? ascWord rest)).getD rest

/-- The part of the tail of a clause that nothing reads. -/
def unreadTail (tail : Text) : Text :=
  match splitAtKeyword? orderPhrase (splitTrailingTop tail).1 with
  | none => []
  | some (_, clause) => orderRest clause

/-- The part of a `FILTER` clause that nothing reads. -/
def unread (t : Text) : Text :=
  match filterHead? (trim t) with
  | none => []
  | some (_, _, tail) => unreadTail tail

/-! ## The head -/

theorem afterSeparators?_gap (gap : Gap) (rest : Text) :
    afterSeparators? (gap.text ++ rest) = some (skipSeparators rest) := by
  obtain ⟨c, more, hgap⟩ := List.exists_cons_of_ne_nil gap.ne_nil
  have hall := gap.isSeparator
  rw [hgap] at hall ⊢
  obtain ⟨hc, hmore⟩ := List.forall_mem_cons.mp hall
  rw [List.cons_append, afterSeparators?, if_pos hc]
  exact congrArg some (List.dropWhile_append_of_pos hmore)

namespace ClauseHead

variable (h : ClauseHead) (tail : Text)

theorem tableWhere?_source :
    tableWhere? (h.source tail) = some (h.table.text, skipSeparators tail) := by
  have hword := h.whereWord.isSolid (by decide) ⟨rfl⟩
  have htable : identifier? (h.source tail) = some (h.table.text,
      h.tableGap.text ++ (h.whereWord.text ++ (h.whereGap.text ++ tail))) :=
    identifier?_append h.table.isIdentifier fun c hc =>
      isIdentifierChar_of_isSeparator (h.tableGap.head?_append _ c hc)
  simp [tableWhere?, htable, afterSetOffWord?, afterSpacedWord?,
    h.tableGap.afterSeparators?_eq hword.head?_append, h.whereWord.afterWord?_eq,
    afterSeparators?_gap]

theorem optionalTop_source :
    optionalTop (h.leadingText ++ h.source tail) = (h.rows, h.source tail) := by
  have hsource : ∀ c ∈ (h.source tail).head?, isSeparator c = false := h.table.isSolid.head?_append
  unfold leadingText rows
  cases hleading : h.leading with
  | none =>
      have htop : top? (h.source tail) = none := top?_table h.table h.tableGap h.whereWord _
      simp [optionalTop, htop]
  | some leading =>
      obtain ⟨top, run⟩ := leading
      have hdigit : ∀ c ∈ (run.text ++ h.source tail).head?, c.isDigit = false := by
        have hne : run.text ++ h.table.text ≠ [] := by simp [h.table.isSolid.ne_nil]
        intro c hc
        refine h.apart _ hleading c ?_
        rwa [source, ← List.append_assoc, List.head?_append_of_ne_nil _ hne] at hc
      have hskip : skipSeparators (run.text ++ h.source tail) = h.source tail :=
        dropWhile_append_of_head? run.all hsource
      simp [optionalTop, top?_text top hdigit, hskip]

/-- A clause is read down to what follows its head, whatever that is. -/
theorem filterHead?_text :
    filterHead? (h.text tail) = some (h.rows, h.table.text, skipSeparators tail) := by
  have hfirst : ∀ c ∈ (h.leadingText ++ h.source tail).head?, isSeparator c = false := by
    unfold leadingText
    cases h.leading with
    | none => exact h.table.isSolid.head?_append
    | some leading =>
        rw [List.append_assoc]
        exact leading.1.isSolid.head?_append
  simp [filterHead?, text, h.filter.afterWord?_eq, h.filterGap.afterSeparators?_eq hfirst,
    h.optionalTop_source, h.tableWhere?_source]

end ClauseHead

theorem exists_of_identifier? {t name rest : Text} (h : identifier? t = some (name, rest)) :
    ∃ n : Name, n.text = name ∧ t = n.text ++ rest := by
  unfold identifier? takeSome? at h
  dsimp only at h
  split at h
  · cases h
  · next hne =>
      cases h
      exact ⟨⟨t.takeWhile isIdentifierChar, fun hnil => hne (List.isEmpty_iff.mpr hnil),
        fun c hc => List.mem_takeWhile_imp hc⟩, rfl, List.takeWhile_append_dropWhile.symm⟩

theorem exists_of_afterSpacedWord? {word t rest : Text} (h : afterSpacedWord? word t = some rest) :
    ∃ (g : Gap) (w : Cased word), t = g.text ++ (w.text ++ rest) := by
  obtain ⟨t', hgap, hword⟩ := Option.bind_eq_some_iff.mp h
  obtain ⟨g, rfl⟩ := exists_gap_of_afterSeparators? hgap
  obtain ⟨w, rfl⟩ := exists_cased_of_afterWord? hword
  exact ⟨g, w, rfl⟩

theorem exists_of_afterSetOffWord? {word t rest : Text} (h : afterSetOffWord? word t = some rest) :
    ∃ (g : Gap) (w : Cased word) (g' : Gap), t = g.text ++ (w.text ++ (g'.text ++ rest)) := by
  obtain ⟨t', hspaced, hgap⟩ := Option.bind_eq_some_iff.mp h
  obtain ⟨g, w, rfl⟩ := exists_of_afterSpacedWord? hspaced
  obtain ⟨g', rfl⟩ := exists_gap_of_afterSeparators? hgap
  exact ⟨g, w, g', rfl⟩

/-- What is read as the head of a clause is one. -/
theorem exists_of_filterHead? {t table tail : Text} {take : Option Nat}
    (h : filterHead? t = some (take, table, tail)) :
    ∃ head : ClauseHead, t = head.text tail ∧ head.rows = take ∧ head.table.text = table := by
  simp only [filterHead?, tableWhere?, Option.bind_eq_bind, Option.bind_eq_some_iff] at h
  obtain ⟨t₁, ⟨t₀, hfilter, hgap⟩, ⟨_, _⟩, ⟨⟨_, _⟩, hname, t₂, hwhere, hpair⟩, heq⟩ := h
  cases hpair
  cases heq
  obtain ⟨filter, rfl⟩ := exists_cased_of_afterWord? hfilter
  obtain ⟨filterGap, rfl⟩ := exists_gap_of_afterSeparators? hgap
  obtain ⟨name, rfl, hsource⟩ := exists_of_identifier? hname
  obtain ⟨tableGap, where', whereGap, rfl⟩ := exists_of_afterSetOffWord? hwhere
  unfold optionalTop at hsource ⊢
  cases htop : top? t₁ with
  | none =>
      rw [htop] at hsource
      have hapart : ∀ l ∈ (none : Option (TopText × Run isSeparator)),
          ∀ c ∈ (l.2.text ++ name.text).head?, c.isDigit = false :=
        fun l hl => absurd hl (Option.not_mem_none l)
      refine ⟨⟨filter, filterGap, none, name, tableGap, where', whereGap, hapart⟩, ?_, rfl, rfl⟩
      rw [show t₁ = _ from hsource]
      rfl
  | some found =>
      obtain ⟨n, rest⟩ := found
      rw [htop] at hsource
      obtain ⟨top, more, rfl, rfl, hskip, hdigit⟩ := exists_of_top? htop
      let run : Run isSeparator :=
        ⟨more.takeWhile isSeparator, fun c hc => List.mem_takeWhile_imp hc⟩
      have hmore : more = run.text ++ rest := by
        rw [hskip]
        exact List.takeWhile_append_dropWhile.symm
      rw [show rest = _ from hsource] at hmore
      have hapart : ∀ l ∈ some (top, run), ∀ c ∈ (l.2.text ++ name.text).head?,
          c.isDigit = false := by
        rintro _ ⟨⟩ c hc
        refine hdigit c ?_
        rw [hmore, ← List.append_assoc, List.head?_append, show _ = some c from hc]
        rfl
      refine ⟨⟨filter, filterGap, some (top, run), name, tableGap, where', whereGap, hapart⟩,
        ?_, rfl, rfl⟩
      rw [hmore]
      simp [ClauseHead.text, ClauseHead.leadingText, ClauseHead.source]

/-! ## The tail -/

/-- What is read as an order is one, with what nothing reads behind it. -/
theorem exists_of_order? {clause : Text} {key : SortKey} (h : order? clause = some key) :
    ∃ o : OrderText, clause = o.text ++ orderRest clause ∧ o.key = key := by
  simp only [order?, Option.bind_eq_bind, Option.bind_eq_some_iff] at h
  obtain ⟨t₁, ⟨t₀, horder, hby⟩, ⟨_, rest⟩, hname, heq⟩ := h
  cases heq
  have hrest : orderRest clause
      = ((afterSpacedWord? descWord rest).or (afterSpacedWord? ascWord rest)).getD rest := by
    simp only [orderRest, horder, Option.bind_some, hby, hname]
  obtain ⟨order, rfl⟩ := exists_cased_of_afterWord? horder
  obtain ⟨between, by', gap, rfl⟩ := exists_of_afterSetOffWord? hby
  obtain ⟨name, rfl, rfl⟩ := exists_of_identifier? hname
  rw [hrest]
  cases hdesc : afterSpacedWord? descWord rest with
  | some left =>
      obtain ⟨g, w, rfl⟩ := exists_of_afterSpacedWord? hdesc
      refine ⟨⟨order, between, by', gap, name, some (g, .descending w)⟩, ?_, rfl⟩
      simp [OrderText.text, OrderText.directionText, Direction.text]
  | none =>
      cases hasc : afterSpacedWord? ascWord rest with
      | some left =>
          obtain ⟨g, w, rfl⟩ := exists_of_afterSpacedWord? hasc
          refine ⟨⟨order, between, by', gap, name, some (g, .ascending w)⟩, ?_, rfl⟩
          simp [OrderText.text, OrderText.directionText, Direction.text]
      | none =>
          refine ⟨⟨order, between, by', gap, name, none⟩, ?_, rfl⟩
          simp [OrderText.text, OrderText.directionText]

theorem touchedAfter_eq_false {t : Text} :
    touchedAfter false t = false ↔ ∀ c ∈ t.getLast?, joinsWord c = false := by
  cases hlast : t.getLast? with
  | none =>
      rw [List.getLast?_eq_none_iff.mp hlast]
      exact ⟨nofun, fun _ => rfl⟩
  | some c =>
      rw [touchedAfter_of_getLast? false hlast]
      exact ⟨fun h d hd => Option.some.inj hd ▸ h, fun h => h c rfl⟩

theorem exists_of_splitTrailingTop {tail cut : Text} {rows : Option Nat}
    (hlast : ∀ c ∈ tail.getLast?, isBlank c = false) (h : splitTrailingTop tail = (cut, rows)) :
    ∃ trailing : Option TopText,
      tail = cut ++ (trailing.map TopText.text).getD []
        ∧ trailing.map (·.count.value) = rows
        ∧ (trailing.isSome = true → ∀ c ∈ cut.getLast?, joinsWord c = false) := by
  rw [splitTrailingTop, trimEnd_of_getLast? hlast] at h
  split at h
  · next before n hread =>
      cases h
      obtain ⟨found, rfl, hstands, htop⟩ := trailingTop?_sound hread
      have hne : found ≠ [] := by
        rintro rfl
        cases htop
      obtain ⟨top, rfl, rfl⟩ := exists_text_of_top? htop fun c hc =>
        isSeparator_of_isBlank_eq_false
          (hlast c (by rwa [List.getLast?_append_of_ne_nil _ hne]))
      exact ⟨some top, rfl, rfl, fun _ => touchedAfter_eq_false.mp hstands.apart⟩
  · cases h
    exact ⟨none, (List.append_nil _).symm, rfl, fun hsome => absurd hsome Bool.false_ne_true⟩

/-- All that the reader of a tail can do when it accepts it: it finds no order, or one that can be
read. -/
theorem ofParts_cases {text table tail : Text} {take : Option Nat} {s : Selection}
    (h : ofParts text take table tail = .ok s) :
    ∃ cut rows front order, splitTrailingTop tail = (cut, rows)
      ∧ s = ⟨table, trim front, order, rows.or take⟩ ∧ trim front ≠ []
      ∧ ((splitAtKeyword? orderPhrase cut = none ∧ front = cut ∧ order = none)
        ∨ ∃ clause key, splitAtKeyword? orderPhrase cut = some (front, clause)
          ∧ order? clause = some key ∧ order = some key) := by
  cases hcut : splitTrailingTop tail with
  | mk cut rows =>
      simp only [ofParts, hcut] at h
      cases hsplit : splitAtKeyword? orderPhrase cut with
      | none =>
          simp only [hsplit, pure_bind] at h
          split at h
          · cases h
          · next hne =>
              cases h
              exact ⟨cut, rows, cut, none, rfl, rfl, fun hnil => hne (List.isEmpty_iff.mpr hnil),
                .inl ⟨hsplit, rfl, rfl⟩⟩
      | some found =>
          obtain ⟨front, clause⟩ := found
          simp only [hsplit] at h
          cases horder : order? clause with
          | none =>
              rw [horder] at h
              cases h
          | some key =>
              simp only [horder, pure_bind] at h
              split at h
              · cases h
              · next hne =>
                  cases h
                  exact ⟨cut, rows, front, some key, rfl, rfl,
                    fun hnil => hne (List.isEmpty_iff.mpr hnil),
                    .inr ⟨clause, key, hsplit, horder, rfl⟩⟩

/-- What is left of a text without the white space around it, if anything is. -/
theorem exists_isSolid_trim {t : Text} (hne : trim t ≠ []) :
    IsSolid (trim t) ∧ ∃ before after : Run isBlank, t = before.text ++ (trim t ++ after.text) := by
  obtain ⟨before, after, hbefore, hafter, ht⟩ := exists_blanks_trim t
  exact ⟨⟨hne, head?_of_trim_eq (trim_trim t), getLast?_of_trim_eq (trim_trim t)⟩,
    ⟨before, hbefore⟩, ⟨after, hafter⟩, ht⟩

/-- What is read as the tail of a clause is one, with what nothing reads behind its order. -/
theorem exists_of_ofParts {text table tail : Text} {take : Option Nat} {s : Selection}
    (hlast : ∀ c ∈ tail.getLast?, isBlank c = false) (h : ofParts text take table tail = .ok s) :
    ∃ w : ClauseTail, tail = w.body (unreadTail tail) ++ w.trailingText
      ∧ (w.trailing.isSome = true → ∀ c ∈ (w.body (unreadTail tail)).getLast?, joinsWord c = false)
      ∧ s = ⟨table, w.predicate, w.order.map (·.key),
          (w.trailing.map (·.count.value)).or take⟩ := by
  obtain ⟨cut, rows, front, order, hcut, rfl, hne, hread⟩ := ofParts_cases h
  obtain ⟨trailing, htail, rfl, hapart⟩ := exists_of_splitTrailingTop hlast hcut
  obtain ⟨hsolid, before, after, hpieces⟩ := exists_isSolid_trim hne
  rcases hread with ⟨hsplit, rfl, rfl⟩ | ⟨clause, key, hsplit, horder, rfl⟩
  · let w : ClauseTail := ⟨before, trim front, hsolid, after, none, trailing⟩
    have hbody : w.body (unreadTail tail) = front := by
      simp only [unreadTail, hcut, hsplit]
      simpa [w, ClauseTail.body, ClauseTail.orderText] using hpieces.symm
    exact ⟨w, by rw [hbody]; exact htail, by rwa [hbody], rfl⟩
  · obtain ⟨o, hclause, rfl⟩ := exists_of_order? horder
    let w : ClauseTail := ⟨before, trim front, hsolid, after, some o, trailing⟩
    have hbody : w.body (unreadTail tail) = cut := by
      obtain ⟨rfl, -⟩ := splitAtPhrase?_spelling hsplit
      simp only [unreadTail, hcut, hsplit]
      simp only [w, ClauseTail.body, ClauseTail.orderText, Option.map_some, Option.getD_some,
        ← hclause]
      rw [← List.append_assoc, ← List.append_assoc, List.append_assoc before.text, ← hpieces]
    exact ⟨w, by rw [hbody]; exact htail, by rwa [hbody], rfl⟩

/-! ## What is left unread -/

/-- Two cuts of one text behind its first run of a class are the same. -/
theorem append_inj_of_firstRun {p : Char → Bool} {a b u v : Text} (h : u ++ a = v ++ b)
    (hu : ∀ c ∈ u, p c = true) (hv : ∀ c ∈ v, p c = true) (ha : ∀ c ∈ a.head?, p c = false)
    (hb : ∀ c ∈ b.head?, p c = false) : u = v ∧ a = b := by
  have hfirst := (takeWhile_append_of_head? hu ha).symm.trans
    ((congrArg (List.takeWhile p) h).trans (takeWhile_append_of_head? hv hb))
  subst hfirst
  exact ⟨rfl, List.append_cancel_left h⟩

theorem quote_not_mem_blanks {t : Text} (h : IsBlankRun t) : '\'' ∉ t :=
  fun hmem => absurd (h _ hmem) (by decide)

theorem isBlankRun_of_append {a b : Text} (h : IsBlankRun (a ++ b)) : IsBlankRun b :=
  fun c hc => h c (List.mem_append_right a hc)

/-- Behind an order as it may be written, nothing is left unread but white space. -/
theorem isBlankRun_orderRest (o : OrderText) {blanks : Text} (h : IsBlankRun blanks) :
    IsBlankRun (orderRest (o.text ++ blanks)) := by
  simp only [orderRest, orderText_reads, identifier?_order o h, Option.bind_some]
  unfold OrderText.directionText
  cases o.direction with
  | none =>
      -- a keyword read from white space would leave white space, too
      have hleft {word left : Text} (hword : afterSpacedWord? word blanks = some left) :
          IsBlankRun left := by
        obtain ⟨g, w, rfl⟩ := exists_of_afterSpacedWord? hword
        exact isBlankRun_of_append (isBlankRun_of_append h)
      rw [List.nil_append]
      cases hdesc : afterSpacedWord? descWord blanks with
      | some left => exact hleft hdesc
      | none =>
          cases hasc : afterSpacedWord? ascWord blanks with
          | some left => exact hleft hasc
          | none => exact h
  | some d =>
      obtain ⟨g, d⟩ := d
      have hgap : afterSeparators? (g.text ++ (d.text ++ blanks)) = some (d.text ++ blanks) :=
        g.afterSeparators?_eq d.isSolid.head?_append
      rw [List.append_assoc]
      simp only [afterSpacedWord?, hgap, Option.bind_some]
      cases d with
      | descending word =>
          rw [Direction.text, word.afterWord?_eq]
          exact h
      | ascending word =>
          rw [Direction.text, word.afterWord?_eq, descWord, word.afterWord?_eq_none (by decide)]
          exact h

section Unique

variable {w : ClauseTail} {blanks : Text} (hblanks : IsBlankRun blanks)
  (hapart : w.trailing.isSome = true → ∀ c ∈ (w.body blanks).getLast?, joinsWord c = false)
  (hlast : ∀ c ∈ (w.body blanks ++ w.trailingText).getLast?, isBlank c = false)

include hblanks hapart hlast

/-- A tail with an order and nothing but white space behind it is cut where its pieces say. -/
theorem splitTrailingTop_body {o : OrderText} (ho : w.order = some o)
    (hquoted : quotedAfter false w.predicate = false) :
    (splitTrailingTop (w.body blanks ++ w.trailingText)).1 = w.body blanks := by
  have hbody : quotedAfter false (w.body blanks) = false := by
    simp only [ClauseTail.body, ClauseTail.orderText, ho, Option.map_some, Option.getD_some,
      quotedAfter_append, quotedAfter_of_not_mem (quote_not_mem_blanks w.before.all), hquoted,
      quotedAfter_of_not_mem (quote_not_mem_blanks w.after.all),
      quotedAfter_of_not_mem (quote_not_mem_orderText o),
      quotedAfter_of_not_mem (quote_not_mem_blanks hblanks)]
  rw [splitTrailingTop, trimEnd_of_getLast? hlast]
  unfold ClauseTail.trailingText at hlast ⊢
  cases htrailing : w.trailing with
  | some top =>
      have htouched := touchedAfter_eq_false.mpr (hapart (by rw [htrailing]; rfl))
      rw [Option.map_some, Option.getD_some, trailingTop?_text top hbody htouched]
  | none =>
      rw [htrailing] at hlast
      simp only [Option.map_none, Option.getD_none, List.append_nil] at hlast ⊢
      have hnil : blanks = [] := by
        by_contra hne
        obtain ⟨c, hc⟩ := Option.isSome_iff_exists.mp (List.getLast?_isSome.mpr hne)
        have hnot := hlast c (by
          simp only [ClauseTail.body, ← List.append_assoc, List.getLast?_append_of_ne_nil _ hne, hc]
          rfl)
        rw [hblanks c (List.mem_of_getLast? hc)] at hnot
        cases hnot
      have hnone : trailingTop? (w.body blanks) = none := by
        refine trailingTop?_eq_none (fun c hc => isSeparator_of_isBlank_eq_false (hlast c hc)) ?_
        simp only [ClauseTail.body, ClauseTail.orderText, ho, Option.map_some, Option.getD_some,
          hnil, List.append_nil, ← List.append_assoc]
        exact not_endsInTop_orderText o _
      rw [hnone]

/-- Where a tail can be written with nothing but white space behind its order, to be read as the
same predicate and order, white space is all that is left unread. -/
theorem isBlankRun_unreadTail {text table : Text} {take : Option Nat} {s : Selection}
    (h : ofParts text take table (w.body blanks ++ w.trailingText) = .ok s)
    (hpredicate : w.predicate = s.predicate) (horder : w.order.map (·.key) = s.order) :
    IsBlankRun (unreadTail (w.body blanks ++ w.trailingText)) := by
  obtain ⟨cut, rows, front, order, hcut, rfl, hne, hread⟩ := ofParts_cases h
  rcases hread with ⟨hsplit, rfl, rfl⟩ | ⟨clause, key, hsplit, hclause, rfl⟩
  · simp only [unreadTail, hcut, hsplit]
    exact nofun
  · obtain ⟨o, ho, -⟩ := Option.map_eq_some_iff.mp horder
    obtain ⟨hsolid, before, after, hfront⟩ := exists_isSolid_trim hne
    have hfirst := splitAtPhrase?_firstPlace isPhrase_order false false cut
    rw [show splitAtPhrase? [orderWord, byWord] false false cut = some (front, clause) from hsplit]
      at hfirst
    obtain ⟨hcutText, hstands, -⟩ := hfirst
    have hquoted : quotedAfter false w.predicate = false := by
      have houtside := hstands.outside
      rw [hfront, quotedAfter_append, quotedAfter_append,
        quotedAfter_of_not_mem (quote_not_mem_blanks before.all),
        quotedAfter_of_not_mem (quote_not_mem_blanks after.all)] at houtside
      rwa [hpredicate]
    have hbody : cut = w.body blanks := by
      rw [← splitTrailingTop_body hblanks hapart hlast ho hquoted, hcut]
    -- predicate, order and what separates them are at the same places in both readings
    have hsame : before.text ++ (trim front ++ (after.text ++ clause))
        = w.before.text ++ (w.predicate ++ (w.after.text ++ (o.text ++ blanks))) := by
      rw [← List.append_assoc (trim front), ← List.append_assoc, ← hfront, ← hcutText, hbody]
      simp [ClauseTail.body, ClauseTail.orderText, ho]
    obtain ⟨-, hsame⟩ := append_inj_of_firstRun hsame before.all w.before.all
      hsolid.head?_append_isBlank w.isSolid.head?_append_isBlank
    rw [hpredicate] at hsame
    obtain ⟨o', hclauseText, -⟩ := exists_of_order? hclause
    have hfirst : ∀ c ∈ clause.head?, isBlank c = false := by
      rw [hclauseText]
      exact (orderText_isSolid o').head?_append_isBlank
    obtain ⟨-, hclauseSame⟩ := append_inj_of_firstRun (List.append_cancel_left hsame) after.all
      w.after.all hfirst (orderText_isSolid o).head?_append_isBlank
    simp only [unreadTail, hcut, hsplit, hclauseSame]
    exact isBlankRun_orderRest o hblanks

end Unique

theorem dropWhile_append_of_rest {p : Char → Bool} {t rest : Text}
    (h : ∀ c ∈ rest.head?, p c = false) : (t ++ rest).dropWhile p = t.dropWhile p ++ rest := by
  rw [List.dropWhile_append]
  split
  · next hnil => rw [dropWhile_of_head? h, List.isEmpty_iff.mp hnil, List.nil_append]
  · rfl

/-- The separators before a predicate belong to what separates it from `WHERE`. -/
theorem skipSeparators_body (w : ClauseTail) (unread rest : Text) :
    ∃ w' : ClauseTail, skipSeparators (w.body unread ++ rest) = w'.body unread ++ rest
      ∧ w'.predicate = w.predicate ∧ w'.order = w.order ∧ w'.trailing = w.trailing
      ∧ (w'.body unread).getLast? = (w.body unread).getLast? := by
  let before : Run isBlank := ⟨w.before.text.dropWhile isSeparator, fun c hc =>
    w.before.all c (List.dropWhile_subset _ hc)⟩
  refine ⟨{ w with before }, ?_, rfl, rfl, rfl, ?_⟩
  · simp only [skipSeparators, ClauseTail.body, List.append_assoc]
    exact dropWhile_append_of_rest w.isSolid.head?_append
  · have hne (more : Text) : w.predicate ++ more ≠ [] := by simp [w.isSolid.ne_nil]
    simp only [ClauseTail.body, List.getLast?_append_of_ne_nil _ (hne _)]
    rfl

theorem ClauseHead.text_eq (h : ClauseHead) (tail : Text) : h.text tail = h.text [] ++ tail := by
  simp [text, source]

/-- The head and tail of a clause that is accepted. -/
theorem exists_of_parse? {t : Text} {s : Selection}
    (hfilter : beginsWith filterWord (trim t) = true) (hread : parse? t = some (.ok s)) :
    ∃ take table tail, filterHead? (trim t) = some (take, table, tail)
      ∧ ofParts (trim t) take table tail = .ok s ∧ ∀ c ∈ tail.getLast?, isBlank c = false := by
  simp only [parse?, hfilter, if_true, Option.some.injEq] at hread
  split at hread
  · next take table tail hhead =>
      obtain ⟨head, htext, -, -⟩ := exists_of_filterHead? hhead
      refine ⟨take, table, tail, hhead, hread, fun c hc => ?_⟩
      refine getLast?_of_trim_eq (trim_trim t) c ?_
      rw [htext, head.text_eq, List.getLast?_append, show tail.getLast? = some c from hc]
      rfl
  · cases hread

/-- Where a clause can be written as the grammar says, to be read as it was, white space is all
that is left unread. -/
theorem isBlankRun_unread {t blanks : Text} {s : Selection} {w : ReadClause}
    (hfilter : beginsWith filterWord (trim t) = true) (hread : parse? t = some (.ok s))
    (hblanks : IsBlankRun blanks) (hspells : w.Spells blanks (trim t)) (hs : w.selection = s) :
    IsBlankRun (unread t) := by
  obtain ⟨take, table, tail, hhead, hparts, hlast⟩ := exists_of_parse? hfilter hread
  have htail := hhead
  rw [hspells.text, w.head.filterHead?_text] at htail
  obtain ⟨w', hskip, hpredicate, horder, htrailing, hend⟩ :=
    skipSeparators_body w.tail blanks w.tail.trailingText
  have htext : w.tail.trailingText = w'.trailingText := by
    simp only [ClauseTail.trailingText, htrailing]
  rw [htext] at hskip htail
  rw [hskip] at htail
  simp only [Option.some.injEq, Prod.mk.injEq] at htail
  obtain ⟨-, -, rfl⟩ := htail
  have hapart := hspells.apart
  rw [← hend, ← htrailing] at hapart
  simp only [unread, hhead]
  refine isBlankRun_unreadTail hblanks hapart hlast hparts ?_ ?_
  · rw [hpredicate, ← hs]
    rfl
  · rw [horder, ← hs]
    rfl

/-- Every `FILTER` clause that is accepted is written as its head, predicate, order and number of
rows say, with a text behind the order that nothing reads. It is written as the grammar says
exactly if white space is all that is left unread. -/
theorem filter_read_iff {t : Text} {s : Selection}
    (hfilter : beginsWith filterWord (trim t) = true) (hread : parse? t = some (.ok s)) :
    (∃ w : ReadClause, w.Spells (unread t) (trim t) ∧ w.selection = s)
      ∧ ((∃ (w : ReadClause) (blanks : Text),
            IsBlankRun blanks ∧ w.Spells blanks (trim t) ∧ w.selection = s)
          ↔ IsBlankRun (unread t)) := by
  have hspelled : ∃ w : ReadClause, w.Spells (unread t) (trim t) ∧ w.selection = s := by
    obtain ⟨take, table, tail, hhead, hparts, hlast⟩ := exists_of_parse? hfilter hread
    obtain ⟨head, htext, rfl, rfl⟩ := exists_of_filterHead? hhead
    obtain ⟨w, htail, hapart, rfl⟩ := exists_of_ofParts hlast hparts
    refine ⟨⟨head, w⟩, ?_, rfl⟩
    simp only [unread, hhead]
    exact ⟨by rw [htext, ← htail], hapart⟩
  refine ⟨hspelled, fun ⟨w, blanks, hblanks, hspells, hs⟩ => ?_, fun hblanks => ?_⟩
  · exact isBlankRun_unread hfilter hread hblanks hspells hs
  · obtain ⟨w, hspells, hs⟩ := hspelled
    exact ⟨w, unread t, hblanks, hspells, hs⟩

/-- A second field to sort by is not read, and the first one is followed by its comma. -/
theorem filter_read_second_field :
    let t := Text.of "FILTER ActiveMeasurements WHERE SignalType = 'FREQ' ORDER BY Device, PointTag"
    let s : Selection := ⟨Text.of "ActiveMeasurements", Text.of "SignalType = 'FREQ'",
      some ⟨Text.of "Device", false⟩, none⟩
    parse? t = some (.ok s) ∧ unread t = Text.of ", PointTag"
      ∧ ∃ w : ReadClause, w.Spells (unread t) (trim t) ∧ w.selection = s := by
  intro t s
  have hread : parse? t = some (.ok s) := by decide +kernel
  have hfilter : beginsWith filterWord (trim t) = true := by decide +kernel
  exact ⟨hread, by decide +kernel, (filter_read_iff hfilter hread).1⟩

/-- No clause of the grammar has a second field to sort by, yet this one is accepted. -/
theorem second_field_dropped :
    let t := Text.of "FILTER ActiveMeasurements WHERE SignalType = 'FREQ' ORDER BY Device, PointTag"
    ∃ s : Selection, beginsWith filterWord (trim t) = true ∧ parse? t = some (.ok s)
      ∧ ¬ ∃ (w : ReadClause) (blanks : Text),
        IsBlankRun blanks ∧ w.Spells blanks (trim t) ∧ w.selection = s := by
  intro t
  have hfilter : beginsWith filterWord (trim t) = true := by decide +kernel
  refine ⟨⟨Text.of "ActiveMeasurements", Text.of "SignalType = 'FREQ'",
    some ⟨Text.of "Device", false⟩, none⟩, hfilter, by decide +kernel, ?_⟩
  rintro ⟨w, blanks, hblanks, hspells, hs⟩
  have hunread := isBlankRun_unread hfilter (by decide +kernel) hblanks hspells hs
  exact absurd (hunread ',' (by decide +kernel)) (by decide)

end SeriesQuery.Selection
