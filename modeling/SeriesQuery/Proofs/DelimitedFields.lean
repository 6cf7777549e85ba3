import SeriesQuery.Proofs.Trimming

/-!
# Fields between delimiters

Splitting undoes joining. A field may hold delimiters of its own inside quotes and brackets, so what
a field must be is said by the scan: it leaves the field where it entered it, outside everything,
and has met no delimiter out there (`Sealed`). Such a field stays one wherever it stands between
delimiters, with white space around it or without.

Every field of a text is sealed but the last, which may leave quotes and brackets open. `Delimited`
keeps track of that: the first field begins where the scan stands, each of the others outside, and
the last ends where the text does. Trimmed fields that are delimited are found again when they are
joined, whatever white space is put behind the delimiters.
-/

namespace SeriesQuery.Text

/-- A character that may separate fields: no white space, no quote, no bracket. -/
structure IsDelimiter (d : Char) : Prop where
  /-- Trimming leaves it. -/
  noBlank : isBlank d = false
  /-- It neither opens nor closes. -/
  noMark : (d == '\'' || Nesting.isOpening d || Nesting.isClosing d) = false

theorem isDelimiter_comma : IsDelimiter ',' := ⟨by decide, by decide⟩

theorem isDelimiter_semicolon : IsDelimiter ';' := ⟨by decide, by decide⟩

theorem isBlankRun_space : IsBlankRun [' '] := by
  intro c hc
  rw [List.mem_singleton.mp hc]
  decide

/-! ## The state after a text -/

theorem eq_of_isOutside {n : Nesting} (h : n.isOutside = true) : n = Nesting.outside := by
  obtain ⟨depth, quoted⟩ := n
  simpa [Nesting.isOutside, Nesting.outside] using h

theorem run_append (n : Nesting) (a b : Text) : n.run (a ++ b) = (n.run a).run b :=
  List.foldl_append

theorem run_of_step {n : Nesting} {t : Text} (h : ∀ c ∈ t, n.step c = n) : n.run t = n := by
  induction t with
  | nil => rfl
  | cons c t ih =>
      show (n.step c).run t = n
      rw [h c List.mem_cons_self]
      exact ih fun d hd => h d (List.mem_cons_of_mem _ hd)

theorem run_blanks (n : Nesting) {t : Text} (h : IsBlankRun t) : n.run t = n :=
  run_of_step fun c hc => (step_blank isDelimiter_comma.noBlank n (h c hc)).1

theorem run_trim (n : Nesting) (t : Text) : n.run (trim t) = n.run t := by
  obtain ⟨lead, tail, hlead, htail, ht⟩ := exists_blanks_trim t
  calc n.run (trim t) = (n.run (trim t)).run tail := (run_blanks _ htail).symm
    _ = n.run (trim t ++ tail) := (run_append _ _ _).symm
    _ = (n.run lead).run (trim t ++ tail) := by rw [run_blanks n hlead]
    _ = n.run (lead ++ (trim t ++ tail)) := (run_append _ _ _).symm
    _ = n.run t := by rw [← ht]

theorem IsDelimiter.step_eq {d : Char} (hd : IsDelimiter d) (n : Nesting) : n.step d = n := by
  have hmark := hd.noMark
  simp only [Bool.or_eq_false_iff] at hmark
  unfold Nesting.step
  rw [hmark.1.1, hmark.1.2, hmark.2]
  cases n.quoted <;> rfl

theorem IsDelimiter.separates_iff {d : Char} (hd : IsDelimiter d) {n : Nesting} {c : Char} :
    n.separates d c = true ↔ c = d ∧ n = Nesting.outside := by
  unfold Nesting.separates
  constructor
  · intro h
    simp only [Bool.and_eq_true, beq_iff_eq] at h
    exact ⟨h.1.1, eq_of_isOutside h.1.2⟩
  · rintro ⟨rfl, rfl⟩
    rw [hd.noMark, beq_self_eq_true]
    rfl

/-! ## One field -/

variable {d : Char}

/-- One more character of a text that is one field. -/
theorem rawFields_cons_eq_singleton {n : Nesting} {c : Char} {f : Text} :
    rawFields d n (c :: f) = [c :: f]
      ↔ n.separates d c = false ∧ rawFields d (n.step c) f = [f] := by
  rw [rawFields]
  cases n.separates d c with
  | true => simp
  | false =>
      obtain ⟨first, more, hf⟩ := List.exists_cons_of_ne_nil (rawFields_ne_nil d (n.step c) f)
      simp [hf, pushFront]

/-- A delimiter met outside ends the fields of what stands before it. -/
theorem rawFields_append_delimiter (hd : IsDelimiter d) {n : Nesting} {a : Text}
    (h : n.run a = Nesting.outside) (t : Text) :
    rawFields d n (a ++ d :: t) = rawFields d n a ++ rawFields d Nesting.outside t := by
  induction a generalizing n with
  | nil =>
      have hn : n = Nesting.outside := h
      show rawFields d n (d :: t) = [] :: rawFields d Nesting.outside t
      rw [rawFields, if_pos (hd.separates_iff.mpr ⟨rfl, hn⟩), hn]
  | cons c a ih =>
      rw [List.cons_append, rawFields, rawFields]
      split
      · next hsep =>
          obtain ⟨rfl, rfl⟩ := hd.separates_iff.mp hsep
          have hrest : (Nesting.outside.step c).run a = Nesting.outside := h
          rw [hd.step_eq] at hrest
          rw [ih hrest]
          rfl
      · obtain ⟨first, more, hf⟩ := List.exists_cons_of_ne_nil (rawFields_ne_nil d (n.step c) a)
        rw [ih h, hf]
        rfl

/-- A field stays one without the white space around it. -/
theorem rawFields_trim (hd : IsDelimiter d) {n : Nesting} {f : Text} (h : rawFields d n f = [f]) :
    rawFields d n (trim f) = [trim f] := by
  obtain ⟨lead, tail, hlead, htail, hf⟩ := exists_blanks_trim f
  generalize trim f = inner at hf ⊢
  obtain ⟨before, last, hinner, hall⟩ := rawFields_append_blanks hd.noBlank n inner htail
  obtain ⟨first, more, hfirst⟩ :=
    List.exists_cons_of_ne_nil (rawFields_ne_nil d n (inner ++ tail))
  have hwhole := rawFields_blanks_append hd.noBlank n hlead _ hfirst
  rw [← hf, h] at hwhole
  obtain ⟨hlead', hmore⟩ := List.cons.inj hwhole
  rw [hf] at hlead'
  rw [← List.append_cancel_left hlead', ← hmore] at hfirst
  rw [hfirst] at hall
  cases before with
  | nil =>
      obtain ⟨hlast, -⟩ := List.cons.inj hall
      rw [hinner, ← List.append_cancel_right hlast]
      rfl
  | cons b before =>
      obtain ⟨-, hnil⟩ := List.cons.inj hall
      cases before <;> cases hnil

/-- A text that a scan from outside leaves outside, without having met the delimiter there. -/
structure Sealed (d : Char) (t : Text) : Prop where
  /-- The scan ends outside. -/
  ends_outside : Nesting.outside.run t = Nesting.outside
  /-- Every delimiter in it is inside quotes or brackets. -/
  encloses : ∀ before after, t = before ++ d :: after →
    Nesting.outside.run before ≠ Nesting.outside

/-- A text is one field if no delimiter in it is met outside. -/
theorem rawFields_eq_singleton_iff (hd : IsDelimiter d) {n : Nesting} {t : Text} :
    rawFields d n t = [t]
      ↔ ∀ before after, t = before ++ d :: after → n.run before ≠ Nesting.outside := by
  induction t generalizing n with
  | nil => simp [rawFields]
  | cons c t ih =>
      rw [rawFields_cons_eq_singleton, ih, ← Bool.not_eq_true, hd.separates_iff]
      constructor
      · rintro ⟨hsep, hmore⟩ before after ht
        cases before with
        | nil => exact fun hout => hsep ⟨(List.cons.inj ht).1, hout⟩
        | cons b before =>
            obtain ⟨rfl, hrest⟩ := List.cons.inj ht
            exact hmore before after hrest
      · refine fun h => ⟨?_, fun before after ht => h (c :: before) after (congrArg (c :: ·) ht)⟩
        rintro ⟨rfl, hout⟩
        exact h [] t rfl hout

theorem sealed_iff (hd : IsDelimiter d) {t : Text} : Sealed d t ↔
    rawFields d Nesting.outside t = [t] ∧ Nesting.outside.run t = Nesting.outside := by
  rw [rawFields_eq_singleton_iff hd]
  exact ⟨fun h => ⟨h.encloses, h.ends_outside⟩, fun h => ⟨h.2, h.1⟩⟩

/-! ## Fields one after the other -/

/-- Fields as a scan finds them on its way from one state to another: the first from where it
stands, all others from outside, which is where every field but the last leaves it. -/
inductive Delimited (d : Char) : Nesting → List Text → Nesting → Prop
  /-- The last field may leave something open. -/
  | last {n : Nesting} {f : Text} : rawFields d n f = [f] → Delimited d n [f] (n.run f)
  /-- A field that a delimiter ends. -/
  | cons {n m : Nesting} {f : Text} {more : List Text} : rawFields d n f = [f] →
      n.run f = Nesting.outside → Delimited d Nesting.outside more m → Delimited d n (f :: more) m

theorem delimited_rawFields (hd : IsDelimiter d) (n : Nesting) (t : Text) :
    Delimited d n (rawFields d n t) (n.run t) := by
  induction t generalizing n with
  | nil => exact .last rfl
  | cons c t ih =>
      rw [rawFields]
      split
      · next hsep =>
          obtain ⟨rfl, rfl⟩ := hd.separates_iff.mp hsep
          have hmore := ih (Nesting.outside.step c)
          rw [hd.step_eq] at hmore
          show Delimited c _ _ ((Nesting.outside.step c).run t)
          rw [hd.step_eq]
          exact .cons rfl rfl hmore
      · next hsep =>
          replace hsep := Bool.eq_false_iff.mpr hsep
          have hmore := ih (n.step c)
          show Delimited d n _ ((n.step c).run t)
          generalize (n.step c).run t = m at hmore ⊢
          generalize rawFields d (n.step c) t = fields at hmore ⊢
          cases hmore with
          | last hf => exact .last (f := c :: _) (rawFields_cons_eq_singleton.mpr ⟨hsep, hf⟩)
          | cons hf hout hmore =>
              exact .cons (rawFields_cons_eq_singleton.mpr ⟨hsep, hf⟩) hout hmore

theorem join_cons (separator f : Text) {l : List Text} (h : l ≠ []) :
    join separator (f :: l) = f ++ (separator ++ join separator l) := by
  obtain ⟨g, more, rfl⟩ := List.exists_cons_of_ne_nil h
  exact List.append_assoc f separator _

namespace Delimited

variable {n m : Nesting} {l : List Text}

theorem ne_nil (h : Delimited d n l m) : l ≠ [] := by
  cases h <;> exact List.cons_ne_nil _ _

theorem map_trim (hd : IsDelimiter d) (h : Delimited d n l m) :
    Delimited d n (l.map trim) m := by
  induction h with
  | last hf =>
      rw [← run_trim]
      exact .last (rawFields_trim hd hf)
  | cons hf hout _ ih => exact .cons (rawFields_trim hd hf) ((run_trim _ _).trans hout) ih

/-- The fields from one of them on. -/
theorem drop {a b : List Text} (hb : b ≠ []) (h : Delimited d Nesting.outside (a ++ b) m) :
    Delimited d Nesting.outside b m := by
  induction a with
  | nil => exact h
  | cons f a ih =>
      rw [List.cons_append] at h
      generalize hmore : a ++ b = more at h
      cases h with
      | last => exact absurd (List.append_eq_nil_iff.mp hmore).2 hb
      | cons _ _ hrest =>
          rw [← hmore] at hrest
          exact ih hrest

/-- Every field but the last is sealed, and the last is if the scan ends outside. -/
theorem sealed (hd : IsDelimiter d) (h : Delimited d Nesting.outside l m) :
    (∀ f ∈ l.dropLast, Sealed d f) ∧ (m = Nesting.outside → ∀ f ∈ l, Sealed d f) := by
  generalize hn : Nesting.outside = n at h
  induction h with
  | last hf =>
      subst hn
      refine ⟨fun f hmem => absurd hmem List.not_mem_nil, fun hout f hmem => ?_⟩
      rw [List.mem_singleton.mp hmem]
      exact (sealed_iff hd).mpr ⟨hf, hout⟩
  | cons hf hout hmore ih =>
      subst hn
      have hfirst := (sealed_iff hd).mpr ⟨hf, hout⟩
      obtain ⟨hinit, hall⟩ := ih rfl
      refine ⟨fun g hmem => ?_, fun hm => List.forall_mem_cons.mpr ⟨hfirst, hall hm⟩⟩
      rw [List.dropLast_cons_of_ne_nil hmore.ne_nil] at hmem
      rcases List.mem_cons.mp hmem with rfl | hmem
      · exact hfirst
      · exact hinit g hmem

section Join

variable (hd : IsDelimiter d) {gap : Text} (hgap : IsBlankRun gap)

include hd hgap

/-- Joined fields are found again, all but the first with the white space in front. -/
theorem rawFields_join {f : Text} {more : List Text} (h : Delimited d n (f :: more) m) :
    rawFields d n (join (d :: gap) (f :: more)) = f :: more.map (gap ++ ·) := by
  induction more generalizing n f with
  | nil =>
      cases h with
      | last hf => exact hf
      | cons _ _ hnone => exact absurd rfl hnone.ne_nil
  | cons g more ih =>
      cases h with
      | cons hf hout hmore =>
          have hrest := rawFields_blanks_append hd.noBlank Nesting.outside hgap _ (ih hmore)
          rw [join_cons _ f (List.cons_ne_nil g more), List.cons_append,
            rawFields_append_delimiter hd hout, hf, hrest]
          rfl

/-- Trimmed fields that are joined are the fields of the text. -/
theorem fields_join (h : Delimited d Nesting.outside l m) (htrim : ∀ f ∈ l, trim f = f) :
    fields d (join (d :: gap) l) = l := by
  obtain ⟨f, more, rfl⟩ := List.exists_cons_of_ne_nil h.ne_nil
  unfold fields
  rw [h.rawFields_join hd hgap, List.map_cons, List.map_map, htrim f List.mem_cons_self]
  refine congrArg (f :: ·) (List.map_congr_left fun g hg => ?_) |>.trans (by rw [List.map_id])
  exact (trim_blanks_append g hgap).trans (htrim g (List.mem_cons_of_mem _ hg))

end Join

end Delimited

/-- Sealed texts are fields one after the other. -/
theorem delimited_of_sealed (hd : IsDelimiter d) {l : List Text} (hl : l ≠ [])
    (h : ∀ f ∈ l, Sealed d f) : Delimited d Nesting.outside l Nesting.outside := by
  induction l with
  | nil => exact absurd rfl hl
  | cons f l ih =>
      obtain ⟨hfirst, hmore⟩ := List.forall_mem_cons.mp h
      obtain ⟨hf, hout⟩ := (sealed_iff hd).mp hfirst
      by_cases hnil : l = []
      · rw [hnil]
        have hlast := Delimited.last hf
        rwa [hout] at hlast
      · exact .cons hf hout (ih hnil hmore)

theorem delimited_fields (hd : IsDelimiter d) (t : Text) :
    Delimited d Nesting.outside (fields d t) (Nesting.outside.run t) :=
  (delimited_rawFields hd Nesting.outside t).map_trim hd

theorem trim_of_mem_fields {t f : Text} (h : f ∈ fields d t) : trim f = f := by
  obtain ⟨raw, -, rfl⟩ := List.mem_map.mp h
  exact trim_trim raw

theorem fields_ne_nil (d : Char) (t : Text) : fields d t ≠ [] :=
  fun h => rawFields_ne_nil d Nesting.outside t (List.map_eq_nil_iff.mp h)

theorem fields_append_delimiter (hd : IsDelimiter d) {a : Text}
    (h : Nesting.outside.run a = Nesting.outside) (t : Text) :
    fields d (a ++ d :: t) = fields d a ++ fields d t := by
  unfold fields
  rw [rawFields_append_delimiter hd h, List.map_append]

/-- A sealed text in front of a delimiter is the first field. -/
theorem Sealed.fields_append (hd : IsDelimiter d) {f : Text} (h : Sealed d f) (htrim : trim f = f)
    (t : Text) : fields d (f ++ d :: t) = f :: fields d t := by
  have hone : fields d f = [f] := by
    rw [fields, ((sealed_iff hd).mp h).1, List.map_singleton, htrim]
  rw [fields_append_delimiter hd h.ends_outside, hone]
  rfl

/-! ## Splitting and joining -/

/-- Trimmed and sealed texts between commas or semicolons are the fields of what they make up. The
fields of any text are trimmed, and all but the last are sealed; joined they have the same fields
again. -/
theorem fields_join_inverse (h : d = ',' ∨ d = ';') :
    (∀ l : List Text, l ≠ [] → (∀ f ∈ l, trim f = f ∧ Sealed d f) → fields d (join [d] l) = l)
      ∧ ∀ t, (∀ f ∈ fields d t, trim f = f) ∧ (∀ f ∈ (fields d t).dropLast, Sealed d f)
        ∧ fields d (join [d] (fields d t)) = fields d t := by
  have hd : IsDelimiter d := by
    rcases h with rfl | rfl
    · exact isDelimiter_comma
    · exact isDelimiter_semicolon
  have hgap : IsBlankRun [] := fun c hc => absurd hc List.not_mem_nil
  refine ⟨fun l hl hall => ?_, fun t => ⟨fun f => trim_of_mem_fields, ?_, ?_⟩⟩
  · exact (delimited_of_sealed hd hl fun f hf => (hall f hf).2).fields_join hd hgap
      fun f hf => (hall f hf).1
  · exact ((delimited_fields hd t).sealed hd).1
  · exact (delimited_fields hd t).fields_join hd hgap fun f => trim_of_mem_fields

/-- Delimiters in brackets and in quotes, a stray bracket, an empty field and a last field that
leaves a bracket and a quote open. -/
theorem fields_join_inverse_unclosed :
    let l := [Text.of "Imports={A; B}", [], Text.of "]'; ('"]
    let t := Text.of " a) ;'b;c'; (d;'e "
    (∀ f ∈ l, trim f = f ∧ Sealed ';' f) ∧ fields ';' (join [';'] l) = l
      ∧ fields ';' t = [Text.of "a)", Text.of "'b;c'", Text.of "(d;'e"]
      ∧ Sealed ';' (Text.of "'b;c'") ∧ fields ';' (join [';'] (fields ';' t)) = fields ';' t := by
  intro l t
  obtain ⟨hjoined, hsplit⟩ := @fields_join_inverse ';' (.inr rfl)
  have hl : ∀ f ∈ l, trim f = f ∧ Sealed ';' f := by
    have hall : ∀ f ∈ l, trim f = f ∧ rawFields ';' Nesting.outside f = [f]
        ∧ Nesting.outside.run f = Nesting.outside := by decide +kernel
    exact fun f hf => ⟨(hall f hf).1, (sealed_iff isDelimiter_semicolon).mpr (hall f hf).2⟩
  have ht : fields ';' t = [Text.of "a)", Text.of "'b;c'", Text.of "(d;'e"] := by decide +kernel
  obtain ⟨-, hsealed, hagain⟩ := hsplit t
  refine ⟨hl, hjoined l (by decide) hl, ht, hsealed _ ?_, hagain⟩
  rw [ht]
  decide

end SeriesQuery.Text
