import SeriesQuery.Proofs.TrailingTop

/-!
# The order of a clause

An `ORDER BY` with its field and direction may be followed by a `TOP n`, and is preceded by a
predicate whose words run up to it. Neither end is in doubt. What stands last in it is a letter, or
a field after `BY`, and no number after `TOP`; and in a predicate in which no `ORDER BY` stands none
comes to stand when separators and another `ORDER BY` follow.
-/

namespace SeriesQuery.Selection

open Text

/-- The keyword `ASC`. -/
def ascWord : Text := ['A', 'S', 'C']

/-- The direction of a sort as it may be written. -/
inductive Direction where
  | ascending (word : Cased ascWord)
  | descending (word : Cased descWord)

namespace Direction

def text : Direction → Text
  | ascending word => word.text
  | descending word => word.text

def isDescending : Direction → Bool
  | ascending _ => false
  | descending _ => true

end Direction

/-- `ORDER BY`, a field, and possibly a direction, as they may be written. -/
structure OrderText where
  order : Cased orderWord
  between : Gap
  byWord : Cased Selection.byWord
  gap : Gap
  field : Name
  direction : Option (Gap × Direction)

namespace OrderText

def directionText (o : OrderText) : Text :=
  match o.direction with
  | none => []
  | some (gap, direction) => gap.text ++ direction.text

def text (o : OrderText) : Text :=
  o.order.text ++ (o.between.text ++ (o.byWord.text ++ (o.gap.text ++
    (o.field.text ++ o.directionText))))

/-- What is sorted by, in ascending order if nothing is said. -/
def key (o : OrderText) : SortKey where
  field := o.field.text
  descending :=
    match o.direction with
    | none => false
    | some (_, direction) => direction.isDescending

end OrderText

theorem isPhrase_order : IsPhrase [orderWord, byWord] := ⟨rfl, fun _ => rfl⟩

theorem isAsciiLetter_direction (d : Direction) : ∀ c ∈ d.text, isAsciiLetter c = true := by
  cases d with
  | ascending word => exact word.isAsciiLetter ⟨rfl⟩
  | descending word => exact word.isAsciiLetter ⟨rfl⟩

theorem Direction.isSolid (d : Direction) : IsSolid d.text := by
  cases d with
  | ascending word => exact word.isSolid (by decide) ⟨rfl⟩
  | descending word => exact word.isSolid (by decide) ⟨rfl⟩

section Order

variable (o : OrderText)

theorem orderText_isSolid : IsSolid o.text := by
  have hfield : IsSolid (o.field.text ++ o.directionText) := by
    unfold OrderText.directionText
    cases o.direction with
    | none =>
        simp only [List.append_nil]
        exact o.field.isSolid
    | some d => exact o.field.isSolid.append d.2.isSolid d.1.text
  have hby : IsSolid (o.byWord.text ++ (o.gap.text ++ (o.field.text ++ o.directionText))) :=
    (o.byWord.isSolid (by decide) ⟨rfl⟩).append hfield o.gap.text
  exact (o.order.isSolid (by decide) ⟨rfl⟩).append hby o.between.text

/-! ## Reading it -/

theorem afterSpacedWord?_direction {tail : Text} (htail : ∀ c ∈ tail, isSeparator c = true) :
    (afterSpacedWord? descWord (o.directionText ++ tail)).isSome = o.key.descending := by
  unfold OrderText.directionText OrderText.key afterSpacedWord?
  cases o.direction with
  | none =>
      cases tail with
      | nil => rfl
      | cons c tail =>
          have hskip : skipSeparators tail = [] := List.dropWhile_eq_nil_iff.mpr fun d hd =>
            htail d (List.mem_cons_of_mem _ hd)
          simp [afterSeparators?, htail c List.mem_cons_self, hskip, afterWord?, descWord]
  | some d =>
      obtain ⟨gap, direction⟩ := d
      have hgap : afterSeparators? (gap.text ++ (direction.text ++ tail))
          = some (direction.text ++ tail) := gap.afterSeparators?_eq direction.isSolid.head?_append
      simp only [List.append_assoc, hgap, Option.bind_some]
      cases direction with
      | descending word =>
          rw [show (Direction.descending word).text = word.text from rfl, word.afterWord?_eq]
          rfl
      | ascending word =>
          rw [show (Direction.ascending word).text = word.text from rfl, descWord,
            word.afterWord?_eq_none (by decide)]
          rfl

/-- An order is read down to its field, whatever follows. -/
theorem orderText_reads (tail : Text) :
    (afterWord? orderWord (o.text ++ tail)).bind (afterSetOffWord? byWord)
      = some (o.field.text ++ (o.directionText ++ tail)) := by
  simp only [OrderText.text, List.append_assoc, o.order.afterWord?_eq, Option.bind_some]
  rw [afterSetOffWord?, afterSpacedWord?, o.between.afterSeparators?_eq
    (o.byWord.isSolid (by decide) ⟨rfl⟩).head?_append, Option.bind_some,
    o.byWord.afterWord?_eq, Option.bind_some,
    o.gap.afterSeparators?_eq o.field.isSolid.head?_append]

/-- The field of an order ends before its direction, or before white space. -/
theorem identifier?_order {tail : Text} (htail : ∀ c ∈ tail, isBlank c = true) :
    identifier? (o.field.text ++ (o.directionText ++ tail))
      = some (o.field.text, o.directionText ++ tail) := by
  refine identifier?_append o.field.isIdentifier fun c hc => ?_
  have hblank : isBlank c = true := by
    unfold OrderText.directionText at hc
    cases hdirection : o.direction with
    | none =>
        rw [hdirection] at hc
        exact htail c (List.mem_of_mem_head? hc)
    | some d =>
        rw [hdirection, List.append_assoc] at hc
        exact isBlank_of_isSeparator (d.1.head?_append _ c hc)
  rw [← Bool.not_eq_true]
  intro hname
  rw [isBlank_of_isIdentifierChar hname] at hblank
  cases hblank

/-- An order is read as it was written, with separators behind it or not. -/
theorem order?_text {tail : Text} (htail : ∀ c ∈ tail, isSeparator c = true) :
    order? (o.text ++ tail) = some o.key := by
  have hfield := identifier?_order o fun c hc => isBlank_of_isSeparator (htail c hc)
  have hdirection := afterSpacedWord?_direction o htail
  simp only [order?, orderText_reads, Option.bind_some, hfield, Option.bind_eq_bind, hdirection]
  rfl

/-! ## It ends in no `TOP n` -/

/-- Two cuts of one text before a last run of a class are the same. -/
theorem append_inj_of_run {p : Char → Bool} {a b u v : Text} (h : a ++ u = b ++ v)
    (hu : ∀ c ∈ u, p c = true) (hv : ∀ c ∈ v, p c = true) (ha : ∀ c ∈ a.getLast?, p c = false)
    (hb : ∀ c ∈ b.getLast?, p c = false) : a = b ∧ u = v := by
  have hrun : ∀ {x run : Text}, (∀ c ∈ run, p c = true) → (∀ c ∈ x.getLast?, p c = false) →
      (x ++ run).reverse.takeWhile p = run.reverse := by
    intro x run hrun hx
    rw [List.reverse_append]
    refine takeWhile_append_of_head? (fun c hc => hrun c (List.mem_reverse.mp hc)) ?_
    rwa [List.head?_reverse]
  have hlast := (hrun hu ha).symm.trans
    ((congrArg (fun t => t.reverse.takeWhile p) h).trans (hrun hv hb))
  obtain rfl := List.reverse_injective hlast
  exact ⟨List.append_cancel_right h, rfl⟩

theorem getLast?_cased {word : Text} (w : Cased word) :
    w.text.getLast?.map Char.toLower = word.getLast?.map Char.toLower := by
  have hlower : asciiLower w.text = asciiLower word := eq_of_beq w.same
  rw [← List.getLast?_map, ← List.getLast?_map]
  exact congrArg List.getLast? hlower

/-- Two cuts of one text before its last word and the separators there are the same. -/
theorem append_inj_of_lastWord {a b u v : Text} {g g' : Gap}
    (h : a ++ g.text ++ u = b ++ g'.text ++ v) (hu : ∀ c ∈ u, isSeparator c = false)
    (hv : ∀ c ∈ v, isSeparator c = false) (ha : ∀ c ∈ a.getLast?, isSeparator c = false)
    (hb : ∀ c ∈ b.getLast?, isSeparator c = false) : a = b := by
  have hgaps : a ++ g.text = b ++ g'.text :=
    (append_inj_of_run (p := fun c => !isSeparator c) h (fun c hc => by simp [hu c hc])
      (fun c hc => by simp [hv c hc]) (fun c hc => by simp [g.getLast?_append a c hc])
      (fun c hc => by simp [g'.getLast?_append b c hc])).1
  exact (append_inj_of_run hgaps g.isSeparator g'.isSeparator ha hb).1

/-- A field after `BY` is no number after `TOP`. -/
theorem append_field_ne {before before' : Text} {word : Cased byWord} {gap : Gap} {field : Name}
    {top : TopText} : before ++ word.text ++ gap.text ++ field.text ≠ before' ++ top.text := by
  intro h
  have hby := word.isSolid (by decide) ⟨rfl⟩
  have htop := top.word.isSolid (by decide) ⟨rfl⟩
  have hsame : (before ++ word.text) ++ gap.text ++ field.text
      = (before' ++ top.word.text) ++ top.gap.text ++ top.count.digits := by
    simpa [TopText.text] using h
  have hwords := append_inj_of_lastWord hsame
    (fun c hc => isSeparator_of_isBlank_eq_false (isBlank_of_isIdentifierChar
      (field.isIdentifier.isIdentifierChar c hc)))
    (fun c hc => isSeparator_of_isBlank_eq_false (isBlank_of_isDigit (top.count.isDigit c hc)))
    hby.getLast?_append htop.getLast?_append
  have hlast := congrArg List.getLast? hwords
  rw [List.getLast?_append_of_ne_nil _ hby.ne_nil,
    List.getLast?_append_of_ne_nil _ htop.ne_nil] at hlast
  have hletters := (getLast?_cased word).symm.trans
    ((congrArg (Option.map Char.toLower) hlast).trans (getLast?_cased top.word))
  exact absurd hletters (by decide)

/-- An order ends in a letter, or in a field after `BY`. -/
theorem not_endsInTop_orderText (before : Text) : ¬ EndsInTop (before ++ o.text) := by
  cases hdirection : o.direction with
  | some d =>
      have hne := d.2.isSolid.ne_nil
      obtain ⟨c, hc⟩ := Option.isSome_iff_exists.mp (List.getLast?_isSome.mpr hne)
      have hlast : (before ++ o.text).getLast? = some c := by
        simpa [OrderText.text, OrderText.directionText, hdirection, List.getLast?_append, hne]
          using hc
      exact not_endsInTop_of_getLast? hlast
        (isDigit_of_isAsciiLetter (isAsciiLetter_direction d.2 c (List.mem_of_getLast? hc)))
  | none =>
      rintro ⟨before', top, h, -⟩
      have hfield : before ++ (o.order.text ++ o.between.text) ++ o.byWord.text ++ o.gap.text
          ++ o.field.text = before' ++ top.text := by
        simpa [OrderText.text, OrderText.directionText, hdirection] using h
      exact append_field_ne hfield

/-! ## Where it stands -/

theorem orderText_starts (tail : Text) :
    phraseStarts [orderWord, byWord] (o.text ++ tail) = true := by
  have hby := o.byWord.isSolid (by decide) ⟨rfl⟩
  have hrun : ∀ c ∈ o.between.text, isAsciiBlank c = true := fun c hc =>
    isAsciiBlank_of_isSeparator (o.between.isSeparator c hc)
  have hskip : ∀ rest : Text, (o.between.text ++ (o.byWord.text ++ rest)).dropWhile isAsciiBlank
      = o.byWord.text ++ rest :=
    fun rest => dropWhile_append_of_head? hrun hby.head?_append_isAsciiBlank
  obtain ⟨c, more, hgap⟩ := List.exists_cons_of_ne_nil o.between.ne_nil
  obtain ⟨d, rest, hafter⟩ := List.exists_cons_of_ne_nil o.gap.ne_nil
  have hc := hrun c (by simp [hgap])
  have hd := joinsWord_of_isSeparator (o.gap.isSeparator d (by simp [hafter]))
  rw [hgap] at hskip
  simp only [List.cons_append] at hskip
  simp only [phraseStarts, afterPhrase?, OrderText.text, List.append_assoc, o.order.afterWord?_eq,
    hgap, List.cons_append, hc, if_true, hskip, o.byWord.afterWord?_eq, hafter, hd, Bool.not_false]

end Order

theorem dropWhile_append_of_getLast? {p : Char → Bool} {t rest : Text} (hne : t ≠ [])
    (hlast : ∀ c ∈ t.getLast?, p c = false) :
    (t ++ rest).dropWhile p = t.dropWhile p ++ rest := by
  have hinner : ¬ (t.dropWhile p).isEmpty = true := by
    rw [List.isEmpty_iff, List.dropWhile_eq_nil_iff]
    intro hall
    obtain ⟨c, hc⟩ := Option.isSome_iff_exists.mp (List.getLast?_isSome.mpr hne)
    have hnot := hlast c hc
    rw [hall c (List.mem_of_getLast? hc)] at hnot
    cases hnot
  rw [List.dropWhile_append, if_neg hinner]

/-- Separators and what begins with no `BY` do not make a phrase of what has been none. -/
theorem phraseStarts_order_append {y rest : Text} (hlast : ∀ c ∈ y.getLast?, isBlank c = false)
    (hrest : ∀ c ∈ rest.head?, isSeparator c = true)
    (hby : afterWord? byWord (rest.dropWhile isAsciiBlank) = none) :
    phraseStarts [orderWord, byWord] (y ++ rest) = phraseStarts [orderWord, byWord] y := by
  have hletter : ∀ c ∈ rest.head?, isAsciiLetter c = false :=
    fun c hc => isAsciiLetter_of_isSeparator (hrest c hc)
  have horder : afterWord? orderWord (y ++ rest) = (afterWord? orderWord y).map (· ++ rest) :=
    afterWord?_append ⟨rfl⟩ hletter
  simp only [phraseStarts, afterPhrase?, horder]
  cases hword : afterWord? orderWord y with
  | none => rfl
  | some left =>
      obtain ⟨word, rfl⟩ := exists_cased_of_afterWord? hword
      cases left with
      | nil =>
          -- the keyword ends the first text, and no `BY` follows
          simp only [Option.map_some, List.nil_append]
          cases rest with
          | nil => rfl
          | cons c rest =>
              simp only [hby, ite_self]
      | cons c left =>
          simp only [Option.map_some, List.cons_append]
          by_cases hc : isAsciiBlank c = true
          · have hend : ∀ d ∈ (c :: left).getLast?, isAsciiBlank d = false := by
              intro d hd
              rw [← Bool.not_eq_true]
              intro hblank
              have hnot := hlast d (by
                rwa [List.getLast?_append_of_ne_nil _ (List.cons_ne_nil c left)])
              rw [isBlank_of_isAsciiBlank hblank] at hnot
              cases hnot
            have hskip : (c :: (left ++ rest)).dropWhile isAsciiBlank
                = (c :: left).dropWhile isAsciiBlank ++ rest :=
              dropWhile_append_of_getLast? (List.cons_ne_nil c left) hend
            have hafter : afterWord? byWord ((c :: left).dropWhile isAsciiBlank ++ rest)
                = (afterWord? byWord ((c :: left).dropWhile isAsciiBlank)).map (· ++ rest) :=
              afterWord?_append ⟨rfl⟩ hletter
            simp only [hc, if_true, hskip, hafter]
            cases afterWord? byWord ((c :: left).dropWhile isAsciiBlank) with
            | none => rfl
            | some found =>
                cases found with
                | cons d found => rfl
                | nil =>
                    cases rest with
                    | nil => rfl
                    | cons d rest => simp [joinsWord_of_isSeparator (hrest d rfl)]
          · simp [hc]

end SeriesQuery.Selection
