import SeriesQuery.Proofs.ClauseOrder

/-!
# Clauses written out and read again

A `FILTER` clause is a structure of words, each as it may be written, around a predicate. The
predicate is any trimmed text with its quotes in pairs in which no `ORDER BY` stands and which does
not end in a `TOP n`; all of that is needed, for the predicate is not read but cut out of the
clause. Its tail is cut from the end first, where a `TOP n` may stand, and then from the front, at
the first `ORDER BY`.
-/

namespace SeriesQuery.Selection

open Text

/-- What can be told from the rest of a clause as its predicate. -/
structure IsClausePredicate (p : Text) : Prop where
  ne_nil : p ≠ []
  trim_eq : trim p = p
  quotes : p.count '\'' % 2 = 0
  order : ¬ Contains [orderWord, byWord] p
  top : ¬ EndsInTop p

/-- A `FILTER` clause as it may be written. -/
structure ClauseText where
  filter : Cased filterWord
  filterGap : Gap
  leading : Option (TopText × Gap)
  table : Name
  tableGap : Gap
  whereWord : Cased Selection.whereWord
  whereGap : Gap
  predicate : Text
  order : Option (Gap × OrderText)
  trailing : Option (Gap × TopText)

namespace ClauseText

def leadingText (w : ClauseText) : Text :=
  match w.leading with
  | none => []
  | some (top, gap) => top.text ++ gap.text

def orderText (w : ClauseText) : Text :=
  match w.order with
  | none => []
  | some (gap, order) => gap.text ++ order.text

def trailingGap (w : ClauseText) : Text :=
  match w.trailing with
  | none => []
  | some (gap, _) => gap.text

def trailingText (w : ClauseText) : Text :=
  match w.trailing with
  | none => []
  | some (gap, top) => gap.text ++ top.text

/-- What follows `WHERE`. -/
def tail (w : ClauseText) : Text := w.predicate ++ w.orderText ++ w.trailingText

/-- From the table to `WHERE`, and what follows. -/
def source (w : ClauseText) : Text :=
  w.table.text ++ (w.tableGap.text ++ (w.whereWord.text ++ (w.whereGap.text ++ w.tail)))

/-- The whole clause. -/
def text (w : ClauseText) : Text :=
  w.filter.text ++ (w.filterGap.text ++ (w.leadingText ++ w.source))

/-- What the clause selects. A number of rows at the end overrides one in the head. -/
def selection (w : ClauseText) : Selection where
  table := w.table.text
  predicate := w.predicate
  order := w.order.map fun (_, order) => order.key
  take := (w.trailing.map fun (_, top) => top.count.value).or
    (w.leading.map fun (top, _) => top.count.value)

end ClauseText

/-! ## The predicate and the order -/

theorem IsClausePredicate.isSolid {p : Text} (h : IsClausePredicate p) : IsSolid p :=
  ⟨h.ne_nil, head?_of_trim_eq h.trim_eq, getLast?_of_trim_eq h.trim_eq⟩

theorem quotedAfter_predicate {p : Text} (h : IsClausePredicate p) :
    quotedAfter false p = false := by
  rw [quotedAfter_eq_count, h.quotes]
  rfl

theorem quote_not_mem_gap (g : Gap) : '\'' ∉ g.text :=
  fun hmem => absurd (g.isSeparator _ hmem) (by decide)

theorem touchedAfter_gap (touched : Bool) (t : Text) (g : Gap) :
    touchedAfter touched (t ++ g.text) = false := by
  obtain ⟨c, hc⟩ := Option.isSome_iff_exists.mp (List.getLast?_isSome.mpr g.ne_nil)
  have hend : (t ++ g.text).getLast? = some c :=
    (List.getLast?_append_of_ne_nil t g.ne_nil).trans hc
  rw [touchedAfter_of_getLast? touched hend]
  exact joinsWord_of_isSeparator (g.isSeparator c (List.mem_of_getLast? hc))

theorem quote_not_mem_orderText (o : OrderText) : '\'' ∉ o.text := by
  have horder := quote_not_mem_of_letters (o.order.isAsciiLetter ⟨rfl⟩)
  have hby := quote_not_mem_of_letters (o.byWord.isAsciiLetter ⟨rfl⟩)
  have hfield : '\'' ∉ o.field.text := fun hmem =>
    absurd (o.field.isIdentifier.isIdentifierChar _ hmem) (by decide)
  have hdirection : '\'' ∉ o.directionText := by
    unfold OrderText.directionText
    cases o.direction with
    | none => exact List.not_mem_nil
    | some d =>
        have hword := quote_not_mem_of_letters (isAsciiLetter_direction d.2)
        simp [quote_not_mem_gap, hword]
  simp [OrderText.text, quote_not_mem_gap, horder, hby, hfield, hdirection]

theorem phraseStarts_order_of_separator {t : Text} (hne : t ≠ [])
    (h : ∀ c ∈ t.head?, isSeparator c = true) : phraseStarts [orderWord, byWord] t = false := by
  obtain ⟨c, more, rfl⟩ := List.exists_cons_of_ne_nil hne
  exact class_of_isSeparator (p := fun c => phraseStarts [orderWord, byWord] (c :: more))
    ⟨rfl, rfl, rfl, rfl⟩ (h c rfl)

/-- No `ORDER BY` stands in a predicate, with what separates it from the text that follows. -/
theorem not_stands_order {p gap found x y : Text} (hp : IsClausePredicate p)
    (hgap : ∀ c ∈ gap, isSeparator c = true) (hempty : gap = [] → found = [])
    (hfound : ∀ c ∈ found.head?, isAsciiBlank c = false) (hby : afterWord? byWord found = none)
    (heq : p ++ gap = x ++ y) (hy : y ≠ []) : ¬ Stands [orderWord, byWord] x (y ++ found) := by
  intro hstands
  have hnot_within : ¬ ∀ c ∈ y, isSeparator c = true := by
    intro hall
    have hstarts := hstands.starts
    rw [phraseStarts_order_of_separator (by simp [hy])] at hstarts
    · cases hstarts
    · obtain ⟨c, more, rfl⟩ := List.exists_cons_of_ne_nil hy
      intro d hd
      cases hd
      exact hall _ List.mem_cons_self
  rcases List.append_eq_append_iff.mp heq with ⟨more, rfl, rfl⟩ | ⟨more, rfl, rfl⟩
  · exact hnot_within fun c hc => hgap c (List.mem_append_right _ hc)
  · have hmore : more ≠ [] := by
      rintro rfl
      exact hnot_within hgap
    have hlast : ∀ c ∈ more.getLast?, isBlank c = false := by
      intro c hc
      exact hp.isSolid.last c ((List.getLast?_append_of_ne_nil x hmore).trans hc)
    have hrest : ∀ c ∈ (gap ++ found).head?, isSeparator c = true := by
      intro c hc
      cases gap with
      | nil =>
          rw [hempty rfl] at hc
          cases hc
      | cons d gap =>
          cases hc
          exact hgap _ List.mem_cons_self
    have hskip : (gap ++ found).dropWhile isAsciiBlank = found :=
      dropWhile_append_of_head? (fun c hc => isAsciiBlank_of_isSeparator (hgap c hc)) hfound
    have hstarts := hstands.starts
    rw [List.append_assoc, phraseStarts_order_append hlast hrest (by rwa [hskip])] at hstarts
    exact hp.order ⟨x, more, rfl, hstands.outside, hstands.apart, hstarts⟩

/-! ## The tail -/

theorem trimEnd_of_getLast? {t : Text} (h : ∀ c ∈ t.getLast?, isBlank c = false) :
    trimEnd t = t := by
  rw [← List.head?_reverse] at h
  unfold trimEnd dropEndWhile
  rw [dropWhile_of_head? h, List.reverse_reverse]

theorem isSeparator_trailingGap (w : ClauseText) : ∀ c ∈ w.trailingGap, isSeparator c = true := by
  unfold ClauseText.trailingGap
  cases w.trailing with
  | none => nofun
  | some trailing => exact trailing.1.isSeparator

theorem splitAtKeyword?_order_none {p gap : Text} (hp : IsClausePredicate p)
    (hgap : ∀ c ∈ gap, isSeparator c = true) : splitAtKeyword? orderPhrase (p ++ gap) = none := by
  refine splitAtPhrase?_eq_none isPhrase_order fun x y heq => ?_
  by_cases hy : y = []
  · subst hy
    exact fun hstands => Bool.false_ne_true (isPhrase_order.nil.symm.trans hstands.starts)
  · have hnot := not_stands_order hp hgap (fun _ => rfl) nofun rfl heq hy
    rwa [List.append_nil] at hnot

theorem splitAtKeyword?_order_some {p : Text} (hp : IsClausePredicate p) (gap : Gap)
    (o : OrderText) (tail : Text) :
    splitAtKeyword? orderPhrase (p ++ gap.text ++ (o.text ++ tail))
      = some (p ++ gap.text, o.text ++ tail) := by
  have hfirst : ∀ c ∈ (o.text ++ tail).head?, isAsciiBlank c = false :=
    (orderText_isSolid o).head?_append_isAsciiBlank
  have hby : afterWord? byWord (o.text ++ tail) = none := by
    rw [OrderText.text, List.append_assoc]
    exact o.order.afterWord?_eq_none (by decide) _
  refine splitAtPhrase?_eq_some isPhrase_order ⟨?_, ?_, orderText_starts o tail⟩
    fun x y heq hy => not_stands_order hp gap.isSeparator (fun hnil => absurd hnil gap.ne_nil)
      hfirst hby heq hy
  · rw [quotedAfter_append, quotedAfter_predicate hp,
      quotedAfter_of_not_mem (quote_not_mem_gap gap)]
  · exact touchedAfter_gap false p gap

section Clause

variable (w : ClauseText) (hw : IsClausePredicate w.predicate)

include hw

theorem body_isSolid : IsSolid (w.predicate ++ w.orderText) := by
  unfold ClauseText.orderText
  cases w.order with
  | none =>
      rw [List.append_nil]
      exact hw.isSolid
  | some order => exact hw.isSolid.append (orderText_isSolid order.2) order.1.text

theorem not_endsInTop_body : ¬ EndsInTop (w.predicate ++ w.orderText) := by
  unfold ClauseText.orderText
  cases w.order with
  | none =>
      rw [List.append_nil]
      exact hw.top
  | some order =>
      rw [← List.append_assoc]
      exact not_endsInTop_orderText order.2 _

theorem quotedAfter_body : quotedAfter false (w.predicate ++ w.orderText) = false := by
  rw [quotedAfter_append, quotedAfter_predicate hw]
  refine quotedAfter_of_not_mem ?_ false
  unfold ClauseText.orderText
  cases w.order with
  | none => exact List.not_mem_nil
  | some order => simp [quote_not_mem_gap, quote_not_mem_orderText]

theorem tail_isSolid : IsSolid w.tail := by
  have hbody := body_isSolid w hw
  unfold ClauseText.tail ClauseText.trailingText
  cases w.trailing with
  | none =>
      rw [List.append_nil]
      exact hbody
  | some trailing => exact hbody.append trailing.2.isSolid trailing.1.text

theorem splitTrailingTop_tail : splitTrailingTop w.tail
    = (w.predicate ++ w.orderText ++ w.trailingGap,
      w.trailing.map fun (_, top) => top.count.value) := by
  have hbody := body_isSolid w hw
  rw [splitTrailingTop, trimEnd_of_getLast? (tail_isSolid w hw).last]
  unfold ClauseText.tail ClauseText.trailingText ClauseText.trailingGap
  cases w.trailing with
  | none =>
      have hlast : ∀ c ∈ (w.predicate ++ w.orderText).getLast?, isSeparator c = false :=
        fun c hc => isSeparator_of_isBlank_eq_false (hbody.last c hc)
      simp only [List.append_nil, trailingTop?_eq_none hlast (not_endsInTop_body w hw)]
      rfl
  | some trailing =>
      obtain ⟨gap, top⟩ := trailing
      have hquoted : quotedAfter false (w.predicate ++ w.orderText ++ gap.text) = false := by
        rw [quotedAfter_append, quotedAfter_body w hw,
          quotedAfter_of_not_mem (quote_not_mem_gap gap)]
      have htouched := touchedAfter_gap false (w.predicate ++ w.orderText) gap
      simp only [← List.append_assoc, trailingTop?_text top hquoted htouched]
      rfl

theorem ofParts_tail (text table : Text) (take : Option Nat) :
    ofParts text take table w.tail = .ok
      ⟨table, w.predicate, w.order.map fun (_, order) => order.key,
        (w.trailing.map fun (_, top) => top.count.value).or take⟩ := by
  have htrim : ∀ gap : Text, (∀ c ∈ gap, isSeparator c = true) →
      trim (w.predicate ++ gap) = w.predicate := fun gap hgap =>
    (trim_append_blanks _ fun c hc => isBlank_of_isSeparator (hgap c hc)).trans hw.trim_eq
  have hne : w.predicate.isEmpty = false := List.isEmpty_eq_false_iff.mpr hw.ne_nil
  have hgap := isSeparator_trailingGap w
  rw [ofParts, splitTrailingTop_tail w hw]
  unfold ClauseText.orderText
  cases w.order with
  | none =>
      simp only [List.append_nil, splitAtKeyword?_order_none hw hgap, pure_bind, htrim _ hgap, hne]
      rfl
  | some order =>
      obtain ⟨gap, o⟩ := order
      simp only [← List.append_assoc]
      rw [List.append_assoc (w.predicate ++ gap.text)]
      simp only [splitAtKeyword?_order_some hw gap o, order?_text o hgap, pure_bind,
        htrim _ gap.isSeparator, hne]
      rfl

end Clause

/-! ## The head -/

/-- A table and separators after it are no `TOP n`, even if the table is called so. -/
theorem top?_table (table : Name) (gap : Gap) (word : Cased whereWord) (rest : Text) :
    top? (table.text ++ (gap.text ++ (word.text ++ rest))) = none := by
  have hword := word.isSolid (by decide) ⟨rfl⟩
  have hletter : ∀ c ∈ (gap.text ++ (word.text ++ rest)).head?, isAsciiLetter c = false :=
    fun c hc => isAsciiLetter_of_isSeparator (gap.head?_append _ c hc)
  rw [top?, afterWord?_append isLetters_topWord hletter]
  cases htop : afterWord? topWord table.text with
  | none => rfl
  | some left =>
      obtain ⟨top, htable⟩ := exists_cased_of_afterWord? htop
      cases left with
      | nil =>
          obtain ⟨c, more, htext⟩ := List.exists_cons_of_ne_nil hword.ne_nil
          have hdigit : c.isDigit = false :=
            isDigit_of_isAsciiLetter (word.isAsciiLetter ⟨rfl⟩ c (by simp [htext]))
          have hdigits : takeSome? Char.isDigit (word.text ++ rest) = none := by
            simp [takeSome?, htext, hdigit]
          simp [gap.afterSeparators?_eq hword.head?_append, hdigits]
      | cons c left =>
          have hc : isIdentifierChar c = true :=
            table.isIdentifier.isIdentifierChar c (by simp [htable])
          have hnot := isSeparator_of_isBlank_eq_false (isBlank_of_isIdentifierChar hc)
          simp [afterSeparators?, hnot]

section Clause

variable (w : ClauseText) (hw : IsClausePredicate w.predicate)

include hw

theorem tableWhere?_source : tableWhere? w.source = some (w.table.text, w.tail) := by
  have htable : identifier? w.source
      = some (w.table.text, w.tableGap.text ++ (w.whereWord.text ++ (w.whereGap.text ++ w.tail))) :=
    identifier?_append w.table.isIdentifier fun c hc =>
      isIdentifierChar_of_isSeparator (w.tableGap.head?_append _ c hc)
  have hwhere : afterSetOffWord? whereWord
      (w.tableGap.text ++ (w.whereWord.text ++ (w.whereGap.text ++ w.tail))) = some w.tail := by
    have htail := (tail_isSolid w hw).head?_isSeparator
    rw [afterSetOffWord?, afterSpacedWord?, w.tableGap.afterSeparators?_eq
      (w.whereWord.isSolid (by decide) ⟨rfl⟩).head?_append, Option.bind_some,
      w.whereWord.afterWord?_eq, Option.bind_some, w.whereGap.afterSeparators?_eq htail]
  simp [tableWhere?, htable, hwhere]

theorem source_isSolid : IsSolid w.source := by
  have hword := w.whereWord.isSolid (by decide) ⟨rfl⟩
  exact w.table.isSolid.append (hword.append (tail_isSolid w hw) w.whereGap.text) w.tableGap.text

theorem optionalTop_source : optionalTop (w.leadingText ++ w.source)
    = (w.leading.map fun (top, _) => top.count.value, w.source) := by
  unfold ClauseText.leadingText
  cases w.leading with
  | none =>
      have htop : top? w.source = none := top?_table w.table w.tableGap w.whereWord _
      simp [optionalTop, htop]
  | some leading =>
      obtain ⟨top, gap⟩ := leading
      have hdigit : ∀ c ∈ (gap.text ++ w.source).head?, c.isDigit = false :=
        fun c hc => isDigit_of_isSeparator (gap.head?_append _ c hc)
      have hskip := gap.skipSeparators_eq (source_isSolid w hw).head?_isSeparator
      simp [optionalTop, top?_text top hdigit, hskip]

theorem head_isSolid : IsSolid (w.leadingText ++ w.source) := by
  unfold ClauseText.leadingText
  cases w.leading with
  | none => exact source_isSolid w hw
  | some leading =>
      rw [List.append_assoc]
      exact leading.1.isSolid.append (source_isSolid w hw) leading.2.text

theorem filterHead?_text : filterHead? w.text
    = some (w.leading.map fun (top, _) => top.count.value, w.table.text, w.tail) := by
  have hhead := (head_isSolid w hw).head?_isSeparator
  simp [filterHead?, ClauseText.text, w.filter.afterWord?_eq, w.filterGap.afterSeparators?_eq hhead,
    optionalTop_source w hw, tableWhere?_source w hw]

omit hw in
theorem beginsWith_filter : beginsWith filterWord w.text = true := by
  obtain ⟨c, more, hgap⟩ := List.exists_cons_of_ne_nil w.filterGap.ne_nil
  have hc := isAsciiBlank_of_isSeparator (w.filterGap.isSeparator c (by simp [hgap]))
  simp [beginsWith, ClauseText.text, w.filter.afterWord?_eq, hgap, hc]

/-- A clause is read as what was written, however it is written. -/
theorem reads_clause : parse? w.text = some (.ok w.selection) := by
  have hfilter := w.filter.isSolid (by decide) ⟨rfl⟩
  have htrim : trim w.text = w.text :=
    (hfilter.append (head_isSolid w hw) w.filterGap.text).trim_eq
  simp only [parse?, htrim, beginsWith_filter, if_true, filterHead?_text w hw, ofParts_tail w hw]
  rfl

end Clause

theorem reads_clause_overridden :
    let space : Gap := ⟨[' '], nofun, List.all_eq_true.mp rfl⟩
    let line : Gap := ⟨['\n', '\t'], nofun, List.all_eq_true.mp rfl⟩
    let top n (h : n < twoTo 64) : TopText := ⟨⟨topWord, rfl⟩, space, .ofNat n h⟩
    let w : ClauseText := {
      filter := ⟨asciiLower filterWord, rfl⟩
      filterGap := line
      leading := some (top 5 (by decide), space)
      table := ⟨['T'], nofun, List.all_eq_true.mp rfl⟩
      tableGap := space
      whereWord := ⟨whereWord, rfl⟩
      whereGap := line
      predicate := topWord ++ '=' :: '\'' :: (orderPhrase ++ ['\''])
      order := some (space, {
        order := ⟨orderWord, rfl⟩
        between := line
        byWord := ⟨byWord, rfl⟩
        gap := space
        field := ⟨byWord, nofun, List.all_eq_true.mp rfl⟩
        direction := some (space, .descending ⟨descWord, rfl⟩) })
      trailing := some (space, top 3 (by decide)) }
    IsClausePredicate w.predicate ∧ w.selection.take = some 3
      ∧ parse? w.text = some (.ok w.selection) := by
  intro space line top w
  have hw : IsClausePredicate w.predicate := {
    ne_nil := nofun
    trim_eq := by decide
    quotes := by decide
    order := not_contains_of_split isPhrase_order rfl
    top := not_endsInTop_of_getLast? (c := '\'') rfl rfl }
  exact ⟨hw, rfl, reads_clause w hw⟩

end SeriesQuery.Selection
