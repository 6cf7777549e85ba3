import SeriesQuery.Catalog.StandardRegex

/-!
# The standard library finds what is documented

Two halves. An expression that was written is read back: an escaped character is one sign, no
other sign begins with a backslash or a parenthesis, and a `*` belongs to the atom before it. And
the matcher keeps exactly the places that the items lead to from those before, which all are
endings of one value; that is what lets it go on from the longest alone where a run takes
everything.
-/

namespace SeriesQuery

namespace Regex

/-! ## Reading back -/

/-- The signs of an item. -/
def Item.signs : Item → List Sign
  | one a => [.atom a]
  | star a => [.atom a, .times]
  | start => [.start]
  | stop => [.stop]

theorem sign?_of_not_isMeta {c : Char} (h : isMeta c = false) :
    sign? c = some (.atom (.char c)) := by
  have hne : ∀ d, isMeta d = true → (c == d) = false := by
    intro d hd
    rw [beq_eq_false_iff_ne]
    rintro rfl
    exact absurd hd (by simp [h])
  rw [sign?, hne '.' (by decide), hne '*' (by decide), hne '^' (by decide), hne '$' (by decide), h]
  rfl

theorem signs?_cons {c : Char} (hc : c ≠ '\\') (rest : Text) :
    signs? (c :: rest) = (sign? c).bind fun s => (signs? rest).map (s :: ·) := by
  rw [signs?]
  · cases sign? c <;> cases signs? rest <;> rfl
  · intro d more hd
    exact absurd hd hc

theorem signs?_atom (a : Atom) (rest : Text) :
    signs? (a.written .standard ++ rest) = (signs? rest).map (.atom a :: ·) := by
  cases a with
  | dot => exact signs?_cons (by decide) rest
  | char c =>
      have hescape : (Atom.char c).written .standard = if isMeta c then ['\\', c] else [c] := by
        simp [Atom.written, RegexLibrary.standard, escape]
      rw [hescape]
      cases hc : isMeta c with
      | true => simp [signs?, hc]
      | false =>
          have hne : c ≠ '\\' := by
            rintro rfl
            exact absurd hc (by decide)
          rw [if_neg Bool.false_ne_true, List.singleton_append, signs?_cons hne,
            sign?_of_not_isMeta hc, Option.bind_some]

theorem signs?_item (item : Item) (rest : Text) :
    signs? (item.written .standard ++ rest) = (signs? rest).map (item.signs ++ ·) := by
  cases item with
  | one a => exact signs?_atom a rest
  | star a =>
      rw [Item.written, List.append_assoc, signs?_atom, List.singleton_append,
        signs?_cons (by decide)]
      cases signs? rest <;> rfl
  | start => exact signs?_cons (by decide) rest
  | stop => exact signs?_cons (by decide) rest

theorem signs?_written (items : List Item) :
    signs? (items.flatMap (Item.written .standard)) = some (items.flatMap Item.signs) := by
  induction items with
  | nil => rfl
  | cons item items ih =>
      rw [List.flatMap_cons, signs?_item, ih, List.flatMap_cons, Option.map_some]

/-- Behind the signs of an item stands the first sign of another one, which is not `*`. -/
theorem items?_signs (items : List Item) : items? (items.flatMap Item.signs) = some items := by
  induction items with
  | nil => rfl
  | cons item items ih =>
      rw [List.flatMap_cons]
      cases item with
      | one a =>
          have hnext : ∀ rest, items.flatMap Item.signs ≠ .times :: rest := by
            intro rest
            cases items with
            | nil => simp
            | cons next items => cases next <;> simp [Item.signs]
          rw [Item.signs, List.singleton_append, items?]
          · rw [ih, Option.map_some]
          · intro rest hrest
            exact hnext rest hrest
      | star a => simp [Item.signs, items?, ih]
      | start => simp [Item.signs, items?, ih]
      | stop => simp [Item.signs, items?, ih]

/-- Parentheses are escaped, so that no item is taken for a group of options. -/
theorem head?_written (items : List Item) :
    (items.flatMap (Item.written .standard)).head? ≠ some '(' := by
  have hatom : ∀ (a : Atom) (rest : Text), (a.written .standard ++ rest).head? ≠ some '(' := by
    intro a rest
    cases a with
    | dot => simp [Atom.written]
    | char c =>
        simp only [Atom.written, RegexLibrary.standard, escape, List.flatMap_cons, List.flatMap_nil,
          List.append_nil]
        cases hc : isMeta c with
        | true => simp
        | false =>
            simp only [Bool.false_eq_true, if_false, List.singleton_append, List.head?_cons, ne_eq,
              Option.some.injEq]
            rintro rfl
            exact absurd hc (by decide)
  cases items with
  | nil => simp
  | cons item items =>
      rw [List.flatMap_cons]
      cases item with
      | one a => exact hatom a _
      | star a => rw [Item.written, List.append_assoc]; exact hatom a _
      | start => simp [Item.written]
      | stop => simp [Item.written]

theorem afterExact?_of_head? {lead t : Text} (h : t.head? ≠ some '(') :
    Text.afterExact? ('(' :: lead) t = none := by
  cases t with
  | nil => rfl
  | cons c t =>
      rw [Text.afterExact?, if_neg]
      rw [beq_iff_eq]
      rintro rfl
      exact h rfl

theorem read?_written (flags : Flags) (items : List Item) :
    read? (written .standard flags items) = some (flags, items) := by
  have hitems : (signs? (items.flatMap (Item.written .standard))).bind items? = some items := by
    rw [signs?_written, Option.bind_some, items?_signs]
  have hnone : ∀ lead, Text.afterExact? ('(' :: lead) (items.flatMap (Item.written .standard))
      = none := fun lead => afterExact?_of_head? (head?_written items)
  obtain ⟨caseless, dotAll⟩ := flags
  cases caseless <;> cases dotAll <;>
    simp [read?, allFlags, List.findSome?, written, Flags.written, Text.afterExact?, hitems, hnone]

/-! ## Matching -/

theorem Atom.accepts_iff {flags : Flags} {a : Atom} {c : Char} :
    a.accepts flags c = true ↔ a.Accepts flags c := by
  cases a with
  | char p =>
      cases h : flags.caseless with
      | true =>
          simp only [Atom.accepts, Atom.Accepts, h, if_true, beq_iff_eq, true_and]
          constructor
          · exact .inr
          · rintro (rfl | h)
            · rfl
            · exact h
      | false => simp [Atom.accepts, Atom.Accepts, h]
  | dot => simp [Atom.accepts, Atom.Accepts]

theorem Atom.accepts_of_acceptsAll {flags : Flags} {a : Atom} (h : a.acceptsAll flags = true)
    (c : Char) : a.Accepts flags c := by
  simp only [Atom.acceptsAll, Bool.and_eq_true, beq_iff_eq] at h
  obtain ⟨hflag, rfl⟩ := h
  exact .inl hflag

theorem mem_endings {t e : Text} : e ∈ endings t ↔ e <:+ t := by
  induction t with
  | nil => simp [endings]
  | cons c t ih => simp [endings, ih, List.suffix_cons_iff]

theorem mem_endingsBehind {accepts : Char → Bool} {t e : Text} :
    e ∈ endingsBehind accepts t ↔ ∃ piece, t = piece ++ e ∧ ∀ c ∈ piece, accepts c = true := by
  induction t with
  | nil =>
      rw [endingsBehind, List.mem_singleton]
      constructor
      · rintro rfl
        exact ⟨[], rfl, by simp⟩
      · rintro ⟨piece, ht, -⟩
        exact (List.append_eq_nil_iff.mp ht.symm).2
  | cons c t ih =>
      rw [endingsBehind, List.mem_cons]
      constructor
      · intro h
        rcases h with rfl | h
        · exact ⟨[], rfl, by simp⟩
        · cases hc : accepts c with
          | false => simp [hc] at h
          | true =>
              rw [hc, if_pos rfl, ih] at h
              obtain ⟨piece, rfl, hpiece⟩ := h
              refine ⟨c :: piece, rfl, ?_⟩
              rw [List.forall_mem_cons]
              exact ⟨hc, hpiece⟩
      · intro h
        obtain ⟨piece, ht, hpiece⟩ := h
        cases piece with
        | nil => exact .inl ht.symm
        | cons d piece =>
            obtain ⟨rfl, rfl⟩ := List.cons.inj ht
            rw [List.forall_mem_cons] at hpiece
            rw [hpiece.1, if_pos rfl, ih]
            exact .inr ⟨piece, rfl, hpiece.2⟩

theorem afterAccepted?_eq_some {accepts : Char → Bool} {s t : Text} :
    afterAccepted? accepts s = some t ↔ ∃ c, s = c :: t ∧ accepts c = true := by
  cases s with
  | nil => simp [afterAccepted?]
  | cons c s =>
      simp only [afterAccepted?, Option.ite_none_right_eq_some, Option.some.injEq, List.cons.injEq]
      constructor
      · intro h
        exact ⟨c, ⟨rfl, h.2⟩, h.1⟩
      · intro h
        obtain ⟨_, ⟨rfl, rfl⟩, hc⟩ := h
        exact ⟨hc, rfl⟩

theorem longest?_eq_none {places : List Text} : longest? places = none ↔ places = [] := by
  cases places with
  | nil => simp [longest?]
  | cons t places =>
      rw [longest?]
      split <;> simp

theorem longest?_spec {places : List Text} {t : Text} (h : longest? places = some t) :
    t ∈ places ∧ ∀ s ∈ places, s.length ≤ t.length := by
  induction places generalizing t with
  | nil => cases h
  | cons s places ih =>
      rw [longest?] at h
      cases hrest : longest? places with
      | none =>
          rw [hrest] at h
          cases h
          rw [longest?_eq_none.mp hrest]
          simp
      | some u =>
          obtain ⟨hmem, hle⟩ := ih hrest
          rw [hrest] at h
          cases h
          rw [List.forall_mem_cons]
          split
          · next hlt =>
              exact ⟨List.mem_cons_self, Nat.le_refl _, fun v hv => Nat.le_trans (hle v hv) hlt⟩
          · next hlt =>
              exact ⟨List.mem_cons_of_mem _ hmem, by omega, hle⟩

theorem Item.Spans.suffix {flags : Flags} {value s t : Text} {item : Item}
    (h : item.Spans flags value s t) : t <:+ s := by
  cases item with
  | one a =>
      obtain ⟨c, rfl, -⟩ := h
      exact List.suffix_cons c t
  | star a =>
      obtain ⟨piece, rfl, -⟩ := h
      exact List.suffix_append piece t
  | start => exact h.2 ▸ List.suffix_refl _
  | stop => exact h.2 ▸ List.suffix_refl _

/-- A run of everything ends anywhere behind the longest ending, since that has all the others. -/
theorem exists_suffix_iff {value t : Text} {places : List Text}
    (hplaces : ∀ s ∈ places, s <:+ value) :
    (∃ s ∈ places, t <:+ s) ↔ ∃ u, longest? places = some u ∧ t <:+ u := by
  constructor
  · intro h
    obtain ⟨s, hs, ht⟩ := h
    cases hlongest : longest? places with
    | none =>
        rw [longest?_eq_none.mp hlongest] at hs
        cases hs
    | some u =>
        obtain ⟨hu, hle⟩ := longest?_spec hlongest
        exact ⟨u, rfl, ht.trans (List.suffix_of_suffix_length_le (hplaces s hs) (hplaces u hu)
          (hle s hs))⟩
  · intro h
    obtain ⟨u, hu, ht⟩ := h
    exact ⟨u, (longest?_spec hu).1, ht⟩

/-- One item leads to the places that it stands for a piece up to. -/
theorem mem_itemStep {flags : Flags} {value t : Text} {places : List Text} {item : Item}
    (hplaces : ∀ s ∈ places, s <:+ value) :
    t ∈ itemStep flags value places item ↔ ∃ s ∈ places, item.Spans flags value s t := by
  cases item with
  | one a =>
      simp only [itemStep, List.mem_filterMap, afterAccepted?_eq_some, Atom.accepts_iff, Item.Spans]
  | star a =>
      rw [itemStep]
      split
      · next hall =>
          have hspan : ∀ s, (Item.star a).Spans flags value s t ↔ t <:+ s := by
            intro s
            constructor
            · exact Item.Spans.suffix
            · rintro ⟨piece, rfl⟩
              exact ⟨piece, rfl, fun c _ => a.accepts_of_acceptsAll hall c⟩
          simp only [hspan, exists_suffix_iff hplaces]
          cases longest? places with
          | none => simp
          | some u => simp [mem_endings]
      · simp only [List.mem_eraseDups, List.mem_flatMap, mem_endingsBehind, Atom.accepts_iff,
          Item.Spans]
  | start =>
      simp only [itemStep, List.mem_filter, beq_iff_eq, Item.Spans]
      constructor
      · intro h
        exact ⟨t, h.1, h.2, rfl⟩
      · rintro ⟨s, hs, hvalue, rfl⟩
        exact ⟨hs, hvalue⟩
  | stop =>
      simp only [itemStep, List.mem_filter, List.isEmpty_iff, Item.Spans]
      constructor
      · intro h
        exact ⟨t, h.1, h.2, rfl⟩
      · rintro ⟨s, hs, hempty, rfl⟩
        exact ⟨hs, hempty⟩

/-- The items in their order lead to the places that they stand for a piece up to together. -/
theorem mem_foldl_itemStep {flags : Flags} {value t : Text} {places : List Text}
    (items : List Item) (hplaces : ∀ s ∈ places, s <:+ value) :
    t ∈ items.foldl (itemStep flags value) places ↔ ∃ s ∈ places, Spans flags value items s t := by
  induction items generalizing places with
  | nil => simp [Spans]
  | cons item items ih =>
      have hnext : ∀ u ∈ itemStep flags value places item, u <:+ value := by
        intro u hu
        obtain ⟨s, hs, hspan⟩ := (mem_itemStep hplaces).mp hu
        exact hspan.suffix.trans (hplaces s hs)
      rw [List.foldl_cons, ih hnext]
      simp only [mem_itemStep hplaces, Spans]
      constructor
      · rintro ⟨u, ⟨s, hs, hspan⟩, hspans⟩
        exact ⟨s, hs, u, hspan, hspans⟩
      · rintro ⟨s, hs, u, hspan, hspans⟩
        exact ⟨u, ⟨s, hs, hspan⟩, hspans⟩

theorem finds_iff {flags : Flags} {items : List Item} {value : Text} :
    finds flags items value = true ↔ Found flags items value := by
  have hplaces : ∀ s ∈ endings value, s <:+ value := fun s hs => mem_endings.mp hs
  rw [finds, Bool.not_eq_true', List.isEmpty_eq_false_iff_exists_mem]
  simp only [mem_foldl_itemStep items hplaces, mem_endings, Found]
  exact exists_comm

end Regex

/-- What the standard library compiles is a test that finds what the expression stands for. -/
theorem RegexLibrary.standard_documented : RegexLibrary.standard.Documented := by
  intro flags items test hcompile value
  have hread := Regex.read?_written flags items
  have hcompiled : Regex.compile? (Regex.written .standard flags items) = some test := hcompile
  simp only [Regex.compile?, hread, Option.bind_eq_bind, Option.bind_some,
    Option.ite_none_right_eq_some, Option.some.injEq] at hcompiled
  obtain ⟨-, rfl⟩ := hcompiled
  exact Regex.finds_iff

end SeriesQuery
