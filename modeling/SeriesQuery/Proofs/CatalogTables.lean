import Mathlib.Data.List.Basic
import Mathlib.Data.List.Find
import Mathlib.Data.List.Induction
import Mathlib.Data.List.Pairwise
import SeriesQuery.Catalog.Basic

/-!
# One table for each name

A row goes to the first table whose name has the same letters, so no second table of a name is
ever begun, whatever spellings it is called by. A name then finds at most one table, and it does
not matter in which order the tables are searched: they may be rearranged at any time, as in a
table of hashes, and every question about a name has the same answer, which is known from the rows
that have been added under it.
-/

namespace SeriesQuery

theorem Text.sameLetters_congr {a b : Text} (h : sameLetters a b = true) (t : Text) :
    sameLetters a t = sameLetters b t := by
  unfold sameLetters at h ⊢
  rw [eq_of_beq h]

theorem Text.sameLetters_comm (a b : Text) : sameLetters a b = sameLetters b a := BEq.comm

namespace Catalog

variable {added : List (Text × Fields)} {c : Catalog}

/-! ## Adding -/

/-- Catalogs to which rows have been added one after another. Their tables are held in no order
that lasts. -/
inductive Grown : List (Text × Fields) → Catalog → Prop
  | empty : Grown [] empty
  | addRow {added : List (Text × Fields)} {c : Catalog} (table : Text) (row : Fields) :
    Grown added c → Grown (added ++ [(table, row)]) (c.addRow table row)
  | rearranged {added : List (Text × Fields)} {c c' : Catalog} :
    Grown added c → c'.tables.Perm c.tables → Grown added c'

/-- The rows added under a name in any spelling, in the order they were added. -/
def rowsUnder (added : List (Text × Fields)) (table : Text) : List Fields :=
  (added.filter fun entry => Text.sameLetters entry.1 table).map (·.2)

/-- Tables whose names all differ in more than the case of letters. -/
def Apart (tables : List (Text × List Fields)) : Prop :=
  tables.Pairwise fun a b => Text.sameLetters a.1 b.1 = false

theorem grown_foldl_addRow (added : List (Text × Fields)) :
    Grown added (added.foldl (fun c (table, row) => c.addRow table row) empty) := by
  induction added using List.reverseRecOn with
  | nil => exact .empty
  | append_singleton added entry ih =>
      rw [List.foldl_concat]
      exact .addRow entry.1 entry.2 ih

theorem rowsUnder_concat (added : List (Text × Fields)) (name table : Text) (row : Fields) :
    rowsUnder (added ++ [(name, row)]) table
      = rowsUnder added table ++ if Text.sameLetters name table then [row] else [] := by
  unfold rowsUnder
  rw [List.filter_append, List.map_append, List.filter_singleton]
  cases Text.sameLetters name table <;> rfl

/-! ## The step -/

/-- A row that is added makes no name but its own. -/
theorem name_of_mem_addTo {table : Text} {row : Fields} {tables : List (Text × List Fields)}
    {entry : Text × List Fields} (h : entry ∈ addTo table row tables) :
    entry.1 = table ∨ ∃ t ∈ tables, t.1 = entry.1 := by
  induction tables with
  | nil =>
      rw [addTo, List.mem_singleton] at h
      exact .inl (congrArg Prod.fst h)
  | cons t rest ih =>
      obtain ⟨name, rows⟩ := t
      rw [addTo] at h
      split at h
      · rcases List.mem_cons.mp h with rfl | hrest
        · exact .inr ⟨_, List.mem_cons_self, rfl⟩
        · exact .inr ⟨entry, List.mem_cons_of_mem _ hrest, rfl⟩
      · rcases List.mem_cons.mp h with rfl | hrest
        · exact .inr ⟨_, List.mem_cons_self, rfl⟩
        · obtain htable | ⟨t, ht, hname⟩ := ih hrest
          · exact .inl htable
          · exact .inr ⟨t, List.mem_cons_of_mem _ ht, hname⟩

theorem Apart.addTo {tables : List (Text × List Fields)} (h : Apart tables) (table : Text)
    (row : Fields) : Apart (addTo table row tables) := by
  induction tables with
  | nil => exact List.pairwise_singleton _ _
  | cons t rest ih =>
      obtain ⟨name, rows⟩ := t
      obtain ⟨hfirst, hrest⟩ := List.pairwise_cons.mp h
      rw [Catalog.addTo]
      split
      · exact List.pairwise_cons.mpr ⟨hfirst, hrest⟩
      · next hother =>
          refine List.pairwise_cons.mpr ⟨fun entry hentry => ?_, ih hrest⟩
          obtain htable | ⟨t, ht, hname⟩ := name_of_mem_addTo hentry
          · rw [htable]
            exact Bool.eq_false_iff.mpr hother
          · rw [← hname]
            exact hfirst t ht

/-- A row added under a name is found there behind the others, and under no other name. -/
theorem rows?_addRow (c : Catalog) (table other : Text) (row : Fields) :
    (c.addRow table row).rows? other
      = if Text.sameLetters table other then some ((c.rows? other).getD [] ++ [row])
        else c.rows? other := by
  obtain ⟨tables, libraries⟩ := c
  unfold rows? addRow
  dsimp only
  induction tables with
  | nil => cases h : Text.sameLetters table other <;> simp [addTo, h]
  | cons t rest ih =>
      obtain ⟨name, rows⟩ := t
      rw [addTo]
      cases htable : Text.sameLetters name table with
      | true =>
          have hsame := Text.sameLetters_congr htable other
          cases hother : Text.sameLetters table other <;> simp [hsame, hother]
      | false =>
          cases hname : Text.sameLetters name other with
          | true =>
              have hdiffer : Text.sameLetters table other = false := by
                rw [Text.sameLetters_comm, ← Text.sameLetters_congr hname, htable]
              simp [hname, hdiffer]
          | false => simpa [hname] using ih

theorem rows?_perm {c' : Catalog} (happart : Apart c.tables) (hperm : c.tables.Perm c'.tables)
    (table : Text) : c.rows? table = c'.rows? table := by
  unfold rows?
  rw [List.find?_eq_find?_of_perm hperm]
  rintro a ⟨ha, hat : Text.sameLetters a.1 table = true⟩ b
    ⟨hb, hbt : Text.sameLetters b.1 table = true⟩
  by_contra hne
  have hsymm : Std.Symm fun a b : Text × List Fields => Text.sameLetters a.1 b.1 = false :=
    ⟨fun a b h => (Text.sameLetters_comm b.1 a.1).trans h⟩
  have hdiffer := happart.forall ha hb hne
  rw [Text.sameLetters_congr hat, Text.sameLetters_comm, hbt] at hdiffer
  exact Bool.noConfusion hdiffer

/-! ## The run -/

/-- What is kept of the rows that have been added. -/
structure Stores (added : List (Text × Fields)) (c : Catalog) : Prop where
  /-- No two tables have one name. -/
  apart : Apart c.tables
  /-- Under a name are the rows added under it. -/
  rows : ∀ table, c.rows? table
    = if rowsUnder added table = [] then none else some (rowsUnder added table)

theorem Grown.stores (h : Grown added c) : Stores added c := by
  induction h with
  | empty => exact ⟨.nil, fun table => rfl⟩
  | addRow table row hgrown ih =>
      refine ⟨ih.apart.addTo table row, fun other => ?_⟩
      rw [rows?_addRow, ih.rows, rowsUnder_concat]
      split
      · split <;> simp [*]
      · rw [List.append_nil]
  | rearranged hgrown hperm ih =>
      have hapart := (hperm.pairwise_iff fun h => (Text.sameLetters_comm _ _).trans h).mpr ih.apart
      exact ⟨hapart, fun table => (rows?_perm hapart hperm table).trans (ih.rows table)⟩

theorem rowsUnder_ne_nil {table : Text} : rowsUnder added table ≠ []
    ↔ ∃ entry ∈ added, Text.sameLetters entry.1 table = true := by
  simp [rowsUnder]

theorem select_always (c : Catalog) (table : Text) : c.select table [] none none
    = match c.rows? table with
      | some rows => .ok rows
      | none => .error (.unknownTable table) := by
  have hparse : Predicate.parse c.libraries.regex [] = .ok .always := rfl
  unfold select
  rw [hparse]
  cases c.rows? table with
  | none => rfl
  | some rows => exact congrArg Except.ok (List.filter_eq_self.mpr fun row _ => rfl)

/-- However rows have been added and tables rearranged, no two tables have one name up to the case
of letters. Under every spelling of a name there is a table if a row was added under that name,
it has as many rows as were added under it, and a selection without a condition gives them in the
order they were added. -/
theorem tables_one_per_name (h : Grown added c) :
    (c.tables.Pairwise fun a b => Text.sameLetters a.1 b.1 = false)
      ∧ ∀ table, (c.hasTable table = true
          ↔ ∃ entry ∈ added, Text.sameLetters entry.1 table = true)
        ∧ c.rowCount table = added.countP (fun entry => Text.sameLetters entry.1 table)
        ∧ c.select table [] none none
          = if c.hasTable table then .ok (rowsUnder added table)
            else .error (.unknownTable table) := by
  refine ⟨h.stores.apart, fun table => ?_⟩
  have hrows := h.stores.rows table
  have hcount : (rowsUnder added table).length
      = added.countP fun entry => Text.sameLetters entry.1 table := by
    rw [rowsUnder, List.length_map, List.countP_eq_length_filter]
  rw [← rowsUnder_ne_nil, ← hcount, hasTable, rowCount, select_always, hrows]
  split <;> simp [*]

/-- Rows under two names in three spellings, with the tables turned around halfway. -/
theorem tables_one_per_name_spellings :
    let row (id : String) : Fields := ⟨[(Text.of "ID", Text.of id)]⟩
    let early := [(Text.of "Devices", row "a"), (Text.of "Phasors", row "b")]
    let added := early ++ [(Text.of "DEVICES", row "c")]
    let before := early.foldl (fun c (table, row) => c.addRow table row) empty
    let c := Catalog.addRow ⟨before.tables.reverse, .standard⟩ (Text.of "DEVICES") (row "c")
    Grown added c
      ∧ c.tables.map (·.1) = [Text.of "Phasors", Text.of "Devices"]
      ∧ c.rowCount (Text.of "devices") = 2
      ∧ c.select (Text.of "devices") [] none none = .ok [row "a", row "c"] := by
  intro row early added before c
  have hgrown : Grown added c :=
    .addRow _ _ (.rearranged (grown_foldl_addRow early) before.tables.reverse_perm)
  obtain ⟨-, hname⟩ := tables_one_per_name hgrown
  obtain ⟨-, hcount, hselect⟩ := hname (Text.of "devices")
  exact ⟨hgrown, by decide +kernel, hcount.trans (by decide +kernel),
    hselect.trans (by decide +kernel)⟩

end Catalog

end SeriesQuery
