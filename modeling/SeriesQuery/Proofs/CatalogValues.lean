import Mathlib.Data.List.TakeWhile
import SeriesQuery.Catalog.Value
import SeriesQuery.Proofs.CharacterClasses

/-!
# Values that spell no number

Two values of the catalog are compared as numbers if both spell one, and else as texts in lower
case. The keys and identifiers of series are such that nothing is ever compared with them as a
number: a numeral has no colon, and no more than two hyphens, one before it and one in its
exponent. Counting marks is what shows this, since every step of reading a numeral takes digits,
letters, a point or one sign from the front.
-/

namespace SeriesQuery

/-! ## Marks in numerals -/

section Marks

variable {mark : Char} (hmark : Text.isAsciiAlphanumeric mark = false) (hpoint : mark ≠ '.')
  (hplus : mark ≠ '+')

include hplus in
theorem Decimal.count_readSign (t : Text) :
    t.count mark ≤ (Decimal.readSign t).2.count mark + ['-'].count mark := by
  unfold Decimal.readSign
  split
  · simp [List.count_cons]
  · simp [List.count_cons, hplus.symm]
  · exact Nat.le_add_right ..

include hmark

theorem Decimal.count_of_digits {t : Text} (h : ∀ c ∈ t, c.isDigit = true) :
    t.count mark = 0 := by
  rw [List.count_eq_zero]
  intro hmem
  simp [Text.isAsciiAlphanumeric, Char.isAlphanum, h mark hmem] at hmark

theorem Decimal.count_spanDigits (t : Text) :
    (Decimal.spanDigits t).2.count mark = t.count mark := by
  have hdigits : (t.takeWhile Char.isDigit).count mark = 0 :=
    count_of_digits hmark fun _ hc => List.mem_takeWhile_imp hc
  calc (Decimal.spanDigits t).2.count mark
      = (t.takeWhile Char.isDigit ++ t.dropWhile Char.isDigit).count mark := by
        rw [List.count_append, hdigits, Nat.zero_add]
        rfl
    _ = t.count mark := by rw [List.takeWhile_append_dropWhile]

/-- The names of numbers have no marks. -/
theorem count_of_asciiLower {t name : Text} (hname : name.all Text.isAsciiAlphanumeric = true)
    (h : Text.asciiLower t = name) : t.count mark = 0 := by
  have hsame : mark.toLower = mark :=
    (Text.toLower_eq_iff (Bool.eq_false_iff.mpr fun hletter =>
      Bool.eq_false_iff.mp hmark (Text.isAsciiAlphanumeric_iff.mpr (.inl hletter)))).mpr rfl
  rw [List.count_eq_zero]
  intro hmem
  have hlower : mark.toLower ∈ name := h ▸ List.mem_map_of_mem hmem
  rw [hsame] at hlower
  exact absurd (List.all_eq_true.mp hname mark hlower) (by simp [hmark])

include hplus

theorem Decimal.count_of_readExponent? {t : Text} {exponent : Int}
    (h : Decimal.readExponent? t = some exponent) : t.count mark ≤ ['-'].count mark := by
  cases t with
  | nil => exact Nat.zero_le _
  | cons c rest =>
      rw [readExponent?] at h
      split at h
      · next hc =>
          have hne : mark ≠ c := by
            rintro rfl
            rw [Bool.or_eq_true, beq_iff_eq, beq_iff_eq] at hc
            rcases hc with rfl | rfl <;> exact absurd hmark (by decide)
          have hsign := count_readSign hplus rest
          cases hread : readSign rest with
          | mk negative digits =>
              rw [hread] at h hsign
              dsimp only at h hsign
              split at h
              · cases h
              · next hdigits =>
                  simp only [Bool.or_eq_true, Bool.not_eq_true', not_or, Bool.not_eq_false,
                    List.all_eq_true] at hdigits
                  rw [count_of_digits hmark hdigits.2, Nat.zero_add] at hsign
                  rwa [List.count_cons_of_ne hne.symm]
      · cases h

include hpoint

theorem Decimal.count_of_read? {t : Text} {d : Decimal} (h : Decimal.read? t = some d) :
    t.count mark ≤ ['-'].count mark := by
  have hexponent : ∀ {p : Prop} [Decidable p] {rest : Text} {scale : Int → Decimal},
      (if p then none else (readExponent? rest).map scale) = some d →
        rest.count mark ≤ ['-'].count mark := by
    intro p _ rest scale h
    split at h
    · cases h
    · obtain ⟨exponent, hread, -⟩ := Option.map_eq_some_iff.mp h
      exact count_of_readExponent? hmark hplus hread
  rw [← count_spanDigits hmark t]
  unfold read? at h
  dsimp only at h
  split at h
  · next rest hrest =>
      rw [hrest, List.count_cons_of_ne hpoint.symm, ← count_spanDigits hmark rest]
      exact hexponent h
  · exact hexponent h

/-- A numeral has no marks but its point and its signs. -/
theorem count_of_readFloat? {t : Text} {x : Float} (h : readFloat? t = some x) :
    t.count mark ≤ 2 * ['-'].count mark := by
  have hsign := Decimal.count_readSign hplus t
  unfold readFloat? at h
  cases hread : Decimal.readSign t with
  | mk negative body =>
      rw [hread] at h hsign
      dsimp only at h hsign
      have hbody : body.count mark ≤ ['-'].count mark := by
        obtain ⟨magnitude, hmagnitude, -⟩ := Option.map_eq_some_iff.mp h
        split at hmagnitude
        · next hname =>
            rw [Bool.or_eq_true, beq_iff_eq, beq_iff_eq] at hname
            rcases hname with hname | hname <;>
              exact (count_of_asciiLower hmark (by decide) hname).trans_le (Nat.zero_le _)
        · split at hmagnitude
          · next hname =>
              exact (count_of_asciiLower hmark (by decide) (eq_of_beq hname)).trans_le
                (Nat.zero_le _)
          · obtain ⟨d, hd, -⟩ := Option.map_eq_some_iff.mp hmagnitude
            exact Decimal.count_of_read? hmark hpoint hplus hd
      omega

end Marks

theorem readFloat?_of_colon {t : Text} (h : ':' ∈ t) : readFloat? t = none := by
  rw [Option.eq_none_iff_forall_ne_some]
  intro x hx
  have hcount : t.count ':' ≤ 2 * ['-'].count ':' :=
    count_of_readFloat? (by decide) (by decide) (by decide) hx
  have := List.count_pos_iff.mpr h
  simp at hcount
  omega

theorem readFloat?_of_hyphens {t : Text} (h : 2 < t.count '-') : readFloat? t = none := by
  rw [Option.eq_none_iff_forall_ne_some]
  intro x hx
  have hcount : t.count '-' ≤ 2 * ['-'].count '-' :=
    count_of_readFloat? (by decide) (by decide) (by decide) hx
  simp at hcount
  omega

/-- The characters of a numeral. -/
theorem mem_of_readFloat? {t : Text} {x : Float} (h : readFloat? t = some x) :
    ∀ c ∈ t, Text.isAsciiAlphanumeric c = true ∨ c = '.' ∨ c = '+' ∨ c = '-' := by
  intro c hc
  by_contra hother
  simp only [not_or, Bool.not_eq_true] at hother
  obtain ⟨hmark, hpoint, hplus, hminus⟩ := hother
  have hcount := count_of_readFloat? hmark hpoint hplus h
  rw [List.count_singleton, if_neg (by simpa using Ne.symm hminus)] at hcount
  have := List.count_pos_iff.mpr hc
  omega

/-! ## Comparing -/

theorem Text.order_self (t : Text) : Text.order t t = .eq := by
  induction t with
  | nil => rfl
  | cons c t ih => simp [Text.order, ih]

/-- With a value that spells no number, all are compared as texts. -/
theorem compareTexts_eq_order (a : Text) {b : Text} (hb : readFloat? (Text.trim b) = none) :
    compareTexts a b = Text.order (Text.lowercase a) (Text.lowercase b) := by
  unfold compareTexts
  rw [hb]
  cases readFloat? (Text.trim a) <;> rfl

end SeriesQuery
