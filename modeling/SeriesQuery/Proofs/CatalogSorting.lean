import Mathlib.Data.List.Perm.Subperm
import SeriesQuery.Catalog.Basic
import SeriesQuery.Proofs.Binary64.Arithmetic
import SeriesQuery.Proofs.CatalogValues

/-!
# Rows in the order of a field

A selection from the catalog is sorted by comparing two values of a field at a time: as numbers
if both spell one, and as texts if not. Each of the two is an order, but not both of them at once.
`2` and `02` are the same number, and the text `1a` stands between them; and what is not a number
is level with every number. So whether the rows come out in order depends on what the field holds.

A field is consistent among some rows if comparing its values is transitive there. Its rows are
then put in order, and so is every choice among them. Conversely a choice of three rows is not put
in order where transitivity fails: none of the three comes before the one right before it, and
sorting takes nothing past a row it does not come before. A field is consistent if it holds
numbers only, or nothing that spells a number.
-/

namespace SeriesQuery

/-! ## Comparing values -/

theorem compareFloats_swap (x y : Float) : (compareFloats x y).swap = compareFloats y x := by
  have hasymm : x < y → ¬ y < x := fun hxy => Binary64.not_lt_of_le (Binary64.le_of_lt hxy)
  unfold compareFloats
  by_cases hxy : x < y
  · simp [hxy, hasymm hxy]
  · by_cases hyx : y < x <;> simp [hxy, hyx]

/-- Numbers are in the order of what they stand for. -/
theorem compareFloats_eq_compare {x y : Float} (hx : ¬ Binary64.IsNaN x)
    (hy : ¬ Binary64.IsNaN y) :
    compareFloats x y = compare (Binary64.value x) (Binary64.value y) := by
  unfold compareFloats
  simp only [Binary64.lt_iff, hx, hy, not_false_eq_true, true_and]
  rcases lt_trichotomy (Binary64.value x) (Binary64.value y) with h | h | h
  · rw [if_pos h, compare_lt_iff_lt.mpr h]
  · rw [if_neg h.not_lt, if_neg h.symm.not_lt, compare_eq_iff_eq.mpr h]
  · rw [if_neg h.not_gt, if_pos h, compare_gt_iff_gt.mpr h]

theorem Text.order_eq_compareLex (s t : Text) :
    Text.order s t = List.compareLex (compareOn Char.toNat) s t := by
  induction s generalizing t with
  | nil => cases t <;> rfl
  | cons a s ih =>
      cases t with
      | nil => rfl
      | cons b t =>
          rw [Text.order, List.compareLex_cons_cons, ih, compareOn]
          cases compare a.toNat b.toNat <;> rfl

theorem Text.order_swap (s t : Text) : (Text.order s t).swap = Text.order t s := by
  rw [order_eq_compareLex, order_eq_compareLex]
  exact Std.OrientedCmp.eq_swap.symm

theorem compareTexts_swap (a b : Text) : (compareTexts a b).swap = compareTexts b a := by
  unfold compareTexts
  cases readFloat? (Text.trim a) <;> cases readFloat? (Text.trim b)
  all_goals first | exact compareFloats_swap .. | exact Text.order_swap ..

theorem compareValues_swap (a b : Option Text) :
    (compareValues a b).swap = compareValues b a := by
  cases a <;> cases b
  all_goals first | rfl | exact compareTexts_swap ..

namespace Catalog

/-! ## Rows and their order -/

/-- The order of two rows by the values of a field. -/
def compareBy (field : Text) (a b : Fields) : Ordering :=
  compareValues (a.get? field) (b.get? field)

/-- Rows of which none is after a later one, in the direction that is asked for. -/
def Orderly (key : SortKey) (rows : List Fields) : Prop :=
  rows.Pairwise fun a b => compareBy key.field a b ≠ if key.descending then .lt else .gt

instance (key : SortKey) (rows : List Fields) : Decidable (Orderly key rows) :=
  inferInstanceAs (Decidable (List.Pairwise _ _))

/-- Comparing the values of a field is transitive among some rows. -/
def Consistent (field : Text) (rows : List Fields) : Prop :=
  ∀ a ∈ rows, ∀ b ∈ rows, ∀ c ∈ rows, compareBy field a b ≠ .gt → compareBy field b c ≠ .gt →
    compareBy field a c ≠ .gt

instance (field : Text) (rows : List Fields) : Decidable (Consistent field rows) :=
  inferInstanceAs (Decidable (∀ a ∈ rows, ∀ b ∈ rows, ∀ c ∈ rows, _))

theorem compareBy_swap (field : Text) (a b : Fields) :
    (compareBy field a b).swap = compareBy field b a := compareValues_swap ..

theorem compareBy_ne_gt_comm {field : Text} {a b : Fields} :
    compareBy field a b ≠ .gt ↔ compareBy field b a ≠ .lt := by
  rw [← compareBy_swap, ne_eq, Ordering.swap_eq_gt]

theorem comesBefore_eq_false {key : SortKey} {a b : Fields} :
    comesBefore key b a = false
      ↔ compareBy key.field a b ≠ if key.descending then .lt else .gt := by
  show (compareBy key.field b a == _) = false ↔ _
  rw [beq_eq_false_iff_ne]
  cases key.descending with
  | false => exact compareBy_ne_gt_comm.symm
  | true => exact compareBy_ne_gt_comm

theorem orderly_iff {key : SortKey} {rows : List Fields} :
    Orderly key rows ↔ rows.Pairwise fun a b => comesBefore key b a = false := by
  simp only [Orderly, comesBefore_eq_false]

theorem Consistent.orderOn {field : Text} {rows : List Fields} (h : Consistent field rows)
    (descending : Bool) : OrderOn (comesBefore ⟨field, descending⟩) rows where
  asymm a _ b _ hab := by
    have hlevel : compareBy field a b = if descending then .gt else .lt := eq_of_beq hab
    rw [comesBefore_eq_false, hlevel]
    cases descending <;> simp
  trans a ha b hb c hc hab hbc := by
    rw [comesBefore_eq_false] at hab hbc ⊢
    cases descending with
    | false => exact h c hc b hb a ha hbc hab
    | true =>
        have hab' : compareBy field a b ≠ .gt := compareBy_ne_gt_comm.mpr hab
        have hbc' : compareBy field b c ≠ .gt := compareBy_ne_gt_comm.mpr hbc
        exact compareBy_ne_gt_comm.mp (h a ha b hb c hc hab' hbc')

theorem Consistent.mono {field : Text} {rows chosen : List Fields} (h : Consistent field rows)
    (hsub : chosen ⊆ rows) : Consistent field chosen :=
  fun a ha b hb c hc => h a (hsub ha) b (hsub hb) c (hsub hc)

/-- Consistent rows are put in order. -/
theorem Consistent.orderly_sortRows {key : SortKey} {rows : List Fields}
    (h : Consistent key.field rows) : Orderly key (sortRows key rows) := by
  rw [orderly_iff]
  exact pairwise_sorted (h.orderOn key.descending)

/-! ## Rows that are left as they are -/

theorem foldl_insertBehind_of_isChain {α : Type} {before : α → α → Bool} {xs backward : List α}
    (h : (backward.reverse ++ xs).IsChain fun a b => before b a = false) :
    xs.foldl (insertBehind before) backward = xs.reverse ++ backward := by
  induction xs generalizing backward with
  | nil => rfl
  | cons x xs ih =>
      have hlast : insertBehind before backward x = x :: backward := by
        cases backward with
        | nil => rfl
        | cons y backward =>
            apply insertBehind_cons_of_not_before
            have hmeet := (List.isChain_append.mp h).2.2
            exact hmeet y (by simp) x (by simp)
      rw [List.foldl_cons, hlast, ih (by simpa using h)]
      simp

/-- Sorting leaves a list as it is if no element comes before the one right before it. -/
theorem sorted_of_isChain {α : Type} {before : α → α → Bool} {xs : List α}
    (h : xs.IsChain fun a b => before b a = false) : sorted before xs = xs := by
  rw [sorted, foldl_insertBehind_of_isChain (by simpa using h)]
  simp

/-- Three rows between which comparing is not transitive are left out of order. -/
theorem exists_not_orderly {field : Text} {a b c : Fields} (hab : compareBy field a b ≠ .gt)
    (hbc : compareBy field b c ≠ .gt) (hac : compareBy field a c = .gt) (descending : Bool) :
    ∃ chosen : List Fields, chosen.Perm [a, b, c]
      ∧ ¬ Orderly ⟨field, descending⟩ (sortRows ⟨field, descending⟩ chosen) := by
  cases descending with
  | false =>
      have hchain : [a, b, c].IsChain fun x y => comesBefore ⟨field, false⟩ y x = false := by
        simp only [comesBefore_eq_false]
        simp [hab, hbc]
      refine ⟨[a, b, c], List.Perm.refl _, ?_⟩
      rw [sortRows, sorted_of_isChain hchain]
      simp [Orderly, hac]
  | true =>
      have hchain : [c, b, a].IsChain fun x y => comesBefore ⟨field, true⟩ y x = false := by
        simp only [comesBefore_eq_false]
        simp [compareBy_ne_gt_comm.mp hab, compareBy_ne_gt_comm.mp hbc]
      have hca : compareBy field c a = .lt := by rw [← compareBy_swap, hac]; rfl
      refine ⟨[c, b, a], (List.reverse_perm [a, b, c]), ?_⟩
      rw [sortRows, sorted_of_isChain hchain]
      simp [Orderly, hca]

theorem compareBy_self (field : Text) (a : Fields) : compareBy field a a = .eq := by
  have h := compareBy_swap field a a
  cases horder : compareBy field a a <;> rw [horder] at h <;> first | rfl | cases h

/-- A field is consistent among some rows exactly if every choice among them is put in order. -/
theorem consistent_iff {key : SortKey} {rows : List Fields} :
    Consistent key.field rows
      ↔ ∀ chosen : List Fields, chosen.Subperm rows → Orderly key (sortRows key chosen) := by
  constructor
  · intro h chosen hchosen
    exact (h.mono hchosen.subset).orderly_sortRows
  · intro h a ha b hb c hc hab hbc hac
    have hself : ∀ x, compareBy key.field x x = .eq := compareBy_self key.field
    have hnodup : [a, b, c].Nodup := by
      have hac' : a ≠ c := by
        rintro rfl
        rw [hself] at hac
        cases hac
      have hab' : a ≠ b := by
        rintro rfl
        exact hbc hac
      have hbc' : b ≠ c := by
        rintro rfl
        exact hab hac
      simp [hab', hac', hbc']
    obtain ⟨chosen, hperm, hnot⟩ := exists_not_orderly hab hbc hac key.descending
    have hsub : [a, b, c].Subperm rows := hnodup.subperm (by simp [ha, hb, hc])
    exact hnot (h chosen (hperm.subperm.trans hsub))

/-! ## Columns of one kind -/

/-- A field that holds numbers only, or nothing that spells a number, where it is there. -/
def Uniform (field : Text) (rows : List Fields) : Prop :=
  (∀ row ∈ rows, ∀ v ∈ row.get? field, ∃ x ∈ readFloat? (Text.trim v), ¬ Binary64.IsNaN x)
    ∨ ∀ row ∈ rows, ∀ v ∈ row.get? field, readFloat? (Text.trim v) = none

/-- Missing values do not matter: they come before all others. -/
theorem consistent_of_texts {field : Text} {rows : List Fields} {column : Text → Prop}
    (hcolumn : ∀ row ∈ rows, ∀ v ∈ row.get? field, column v)
    (htrans : ∀ u v w, column u → column v → column w →
      compareTexts u v ≠ .gt → compareTexts v w ≠ .gt → compareTexts u w ≠ .gt) :
    Consistent field rows := by
  intro a ha b hb c hc
  unfold compareBy
  cases hu : a.get? field with
  | none => cases c.get? field <;> simp [compareValues]
  | some u =>
      cases hv : b.get? field with
      | none => simp [compareValues]
      | some v =>
          cases hw : c.get? field with
          | none => simp [compareValues]
          | some w => exact htrans u v w (hcolumn a ha u hu) (hcolumn b hb v hv) (hcolumn c hc w hw)

theorem consistent_of_uniform {field : Text} {rows : List Fields} (h : Uniform field rows) :
    Consistent field rows := by
  rcases h with hnumbers | htexts
  · apply consistent_of_texts hnumbers
    intro u v w hu hv hw
    obtain ⟨x, hx, hxn⟩ := hu
    obtain ⟨y, hy, hyn⟩ := hv
    obtain ⟨z, hz, hzn⟩ := hw
    simp only [compareTexts, Option.mem_def.mp hx, Option.mem_def.mp hy, Option.mem_def.mp hz]
    rw [compareFloats_eq_compare hxn hyn, compareFloats_eq_compare hyn hzn,
      compareFloats_eq_compare hxn hzn]
    simp only [ne_eq, compare_gt_iff_gt, not_lt]
    exact le_trans
  · apply consistent_of_texts htexts
    intro u v w _ hv hw
    rw [compareTexts_eq_order u hv, compareTexts_eq_order v hw, compareTexts_eq_order u hw]
    simp only [Text.order_eq_compareLex, ← Ordering.isLE_iff_ne_gt]
    exact Std.TransCmp.isLE_trans

/-! ## Selecting -/

section Selecting

variable {c : Catalog} {table predicate : Text} {rows : List Fields} {p : Predicate}
  (hrows : c.rows? table = some rows)
  (hp : Predicate.parse c.libraries.regex predicate = .ok p)

include hrows hp

theorem select_sorted (key : SortKey) :
    c.select table predicate (some key) none
      = .ok (sortRows key (rows.filter fun row => p.holds c.libraries.regex row)) := by
  unfold select
  rw [hrows, hp]
  rfl

theorem select_sorted_take (key : SortKey) (n : Nat) :
    c.select table predicate (some key) (some n)
      = .ok ((sortRows key (rows.filter fun row => p.holds c.libraries.regex row)).take n) := by
  unfold select
  rw [hrows, hp]
  rfl

end Selecting

/-- A table of rows that all satisfy a predicate is selected as a whole. -/
theorem select_chosen {c : Catalog} {table predicate : Text} {p : Predicate}
    (hp : Predicate.parse c.libraries.regex predicate = .ok p) {chosen : List Fields}
    (key : SortKey) (hchosen : ∀ row ∈ chosen, p.holds c.libraries.regex row = true) :
    (Catalog.mk [(table, chosen)] c.libraries).select table predicate (some key) none
      = .ok (sortRows key chosen) := by
  have hfound : (Catalog.mk [(table, chosen)] c.libraries).rows? table = some chosen := by
    simp [rows?, Text.sameLetters]
  rw [select_sorted hfound hp, List.filter_eq_self.mpr hchosen]

/-- A sorted selection is made of the matching rows, each as often as it is in the table, and one
that is cut is the front of it. Its rows are in order if the field is consistent among them; and
it is consistent exactly if the rows come out in order from every table of some of them, in
whatever order they are in that. -/
theorem select_sorts {c : Catalog} {table predicate : Text} {rows : List Fields} {p : Predicate}
    (hrows : c.rows? table = some rows) (hp : Predicate.parse c.libraries.regex predicate = .ok p)
    (key : SortKey) :
    let matching := rows.filter fun row => p.holds c.libraries.regex row
    ∃ found : List Fields, c.select table predicate (some key) none = .ok found
      ∧ found.Perm matching
      ∧ (∀ n, c.select table predicate (some key) (some n) = .ok (found.take n))
      ∧ (Consistent key.field matching → Orderly key found)
      ∧ (Consistent key.field matching ↔ ∀ chosen : List Fields, chosen.Subperm matching →
        ∃ sorted, (Catalog.mk [(table, chosen)] c.libraries).select table predicate (some key) none
          = .ok sorted ∧ Orderly key sorted) := by
  intro matching
  refine ⟨sortRows key matching, select_sorted hrows hp key, sorted_perm _ matching,
    select_sorted_take hrows hp key, Consistent.orderly_sortRows, ?_⟩
  rw [consistent_iff]
  refine forall₂_congr fun chosen hchosen => ?_
  have hholds : ∀ row ∈ chosen, p.holds c.libraries.regex row = true := by
    intro row hrow
    exact (List.mem_filter.mp (hchosen.subset hrow)).2
  simp [select_chosen hp key hholds]

theorem select_sorts_ranks :
    let row := fun id rank => Fields.mk [(Text.of "ID", Text.of id), (Text.of "Rank", Text.of rank)]
    let unranked : Fields := ⟨[(Text.of "ID", Text.of "c")]⟩
    let rows := [row "a" "9", row "b" "10", unranked, row "d" " 9.0", row "e" "11"]
    let c : Catalog := ⟨[(Text.of "Devices", rows)], .standard⟩
    let p := Predicate.compare (Text.of "ID") .less (Text.of "e")
    let key : SortKey := ⟨Text.of "Rank", true⟩
    c.rows? (Text.of "devices") = some rows
      ∧ Predicate.parse c.libraries.regex (Text.of "ID < e") = .ok p
      ∧ Consistent key.field (rows.filter fun row => p.holds c.libraries.regex row)
      ∧ ∃ found, c.select (Text.of "devices") (Text.of "ID < e") (some key) none = .ok found
        ∧ Orderly key found
        ∧ c.select (Text.of "devices") (Text.of "ID < e") (some key) (some 1)
          = .ok (found.take 1) := by
  intro row unranked rows c p key
  have hrows : c.rows? (Text.of "devices") = some rows := by decide +kernel
  have hp : Predicate.parse c.libraries.regex (Text.of "ID < e") = .ok p := by decide +kernel
  have hconsistent :
      Consistent key.field (rows.filter fun row => p.holds c.libraries.regex row) := by
    decide +kernel
  obtain ⟨found, hfound, -, htake, horder, -⟩ := select_sorts hrows hp key
  exact ⟨hrows, hp, hconsistent, found, hfound, horder hconsistent, htake 1⟩

/-- Rows are left out of order, although they could be put in order: the first two are the same
number, and the text of the third is between theirs. -/
theorem select_unsorted :
    let row := fun id rank => Fields.mk [(Text.of "ID", Text.of id), (Text.of "Rank", Text.of rank)]
    let rows := [row "a" "2", row "b" "02", row "c" "1a"]
    let c : Catalog := ⟨[(Text.of "T", rows)], .standard⟩
    let key : SortKey := ⟨Text.of "Rank", false⟩
    c.select (Text.of "T") [] (some key) none = .ok rows ∧ ¬ Orderly key rows
      ∧ Orderly key [row "b" "02", row "c" "1a", row "a" "2"] := by
  decide +kernel

end Catalog

end SeriesQuery
