import Mathlib.Data.List.Nodup
import SeriesQuery.Targets

/-!
# Targets in columns

Targets are one list of entries here. Where they are looked up often they are kept in columns: the
names in order, for each key the place of its entry, and whether the entry at each place is shown
under an alias. An entry is then found through its place, and an alias writes to two columns at one
place.

The columns are another form of the list and no more. An insertion into them gives the columns of
what it gives in the list, so they stay in step for as long as keys are told apart.
-/

namespace SeriesQuery

/-- Targets in columns. -/
structure TargetColumns where
  /-- The keys and the names they are shown under, in the order they were first named. -/
  entries : List (Text × Text)
  /-- The place of the entry of each key. -/
  places : List (Text × Nat)
  /-- Whether the entry at each place is shown under an alias. -/
  flags : List Bool
  /-- The aliases in lower case, with the key that each was first given to. -/
  aliases : List (Text × Text)

namespace TargetColumns

/-- No targets. -/
def empty : TargetColumns := ⟨[], [], [], []⟩

/-- The place of a key. -/
def place? (c : TargetColumns) (key : Text) : Option Nat :=
  (c.places.find? (·.1 == key)).map (·.2)

/-- The name that a key is shown under. -/
def displayOf? (c : TargetColumns) (key : Text) : Option Text :=
  (c.place? key).bind fun i => c.entries[i]?.map (·.2)

/-- Whether a key is shown under an alias. -/
def isAliased (c : TargetColumns) (key : Text) : Bool :=
  match c.place? key with
  | some i => c.flags[i]?.getD false
  | none => false

/-- Adds an entry behind the others. -/
def push (c : TargetColumns) (key display : Text) (aliased : Bool) : TargetColumns :=
  { c with
    entries := c.entries ++ [(key, display)]
    places := c.places ++ [(key, c.entries.length)]
    flags := c.flags ++ [aliased] }

/-- Adds a series under its own name, and says whether it is new. -/
def insert (c : TargetColumns) (key display : Text) : Bool × TargetColumns :=
  if (c.place? key).isSome then (false, c) else (true, c.push key display false)

/-- Adds a series under an alias, and says whether it is new or had none before. -/
def insertAliased (c : TargetColumns) (key name display : Text) : Bool × TargetColumns :=
  let c := { c with aliases := Targets.addAlias ⟨[], c.aliases⟩ name key }
  match c.place? key with
  | none => (true, c.push key display true)
  | some i =>
    if c.flags[i]?.getD false then (false, c)
    else
      (true, { c with
        entries := c.entries.modify i fun entry => (entry.1, display)
        flags := c.flags.set i true })

/-- The columns belong together. -/
structure InStep (c : TargetColumns) : Prop where
  /-- The place of a key is where its entry is. -/
  place_iff : ∀ key i, c.place? key = some i ↔ c.entries[i]?.map (·.1) = some key
  /-- Every entry has a flag, and there are no others. -/
  flags_length : c.flags.length = c.entries.length

end TargetColumns

namespace Targets

/-- The columns of targets. -/
def columns (m : Targets) : TargetColumns where
  entries := m.entries.map fun t => (t.key, t.display)
  places := m.entries.zipIdx.map fun (t, i) => (t.key, i)
  flags := m.entries.map (·.aliased)
  aliases := m.aliases

variable {m : Targets} {key : Text}

/-! ## Reading -/

theorem place?_columns (m : Targets) (key : Text) :
    m.columns.place? key = m.entries.findIdx? (·.key == key) := by
  unfold TargetColumns.place? columns
  rw [List.find?_map, Option.map_map, List.findIdx?_eq_fst_find?_zipIdx]
  rfl

theorem find?_eq_bind_place? (m : Targets) (key : Text) :
    m.find? key = (m.columns.place? key).bind (m.entries[·]?) := by
  rw [place?_columns]
  exact List.find?_eq_bind_findIdx?_getElem?

theorem find?_of_place? {i : Nat} (h : m.columns.place? key = some i) :
    ∃ t, m.entries[i]? = some t ∧ t.key = key ∧ m.find? key = some t := by
  have hfind := find?_eq_bind_place? m key
  rw [place?_columns] at h
  obtain ⟨hi, hkey, -⟩ := List.findIdx?_eq_some_iff_getElem.mp h
  refine ⟨m.entries[i], List.getElem?_eq_getElem hi, eq_of_beq hkey, ?_⟩
  rw [hfind, place?_columns, h]
  exact List.getElem?_eq_getElem hi

/-- Keys that are told apart stand at one place each. -/
theorem place_unique (h : m.keys.Nodup) {i j : Nat} {t u : Target} (ht : m.entries[i]? = some t)
    (hu : m.entries[j]? = some u) (hkey : t.key = u.key) : i = j := by
  have hi : m.keys[i]? = some t.key := by
    unfold keys
    rw [List.getElem?_map, ht]
    rfl
  have hj : m.keys[j]? = some t.key := by
    unfold keys
    rw [List.getElem?_map, hu, hkey]
    rfl
  obtain ⟨hil, hi⟩ := List.getElem?_eq_some_iff.mp hi
  obtain ⟨hjl, hj⟩ := List.getElem?_eq_some_iff.mp hj
  exact (List.Nodup.getElem_inj_iff h).mp (hi.trans hj.symm)

theorem inStep_columns (h : m.keys.Nodup) : m.columns.InStep where
  place_iff key i := by
    have hentry : m.columns.entries[i]?.map (·.1) = m.entries[i]?.map (·.key) := by
      unfold columns
      rw [List.getElem?_map, Option.map_map]
      rfl
    rw [hentry, Option.map_eq_some_iff]
    constructor
    · intro hplace
      obtain ⟨t, ht, hkey, -⟩ := find?_of_place? hplace
      exact ⟨t, ht, hkey⟩
    · rintro ⟨t, ht, hkey⟩
      have hsome : (m.columns.place? key).isSome := by
        rw [place?_columns, List.findIdx?_isSome, List.any_eq_true]
        exact ⟨t, List.mem_of_getElem? ht, beq_iff_eq.mpr hkey⟩
      obtain ⟨j, hj⟩ := Option.isSome_iff_exists.mp hsome
      obtain ⟨u, hu, hukey, -⟩ := find?_of_place? hj
      rw [hj, place_unique h hu ht (hukey.trans hkey.symm)]
  flags_length := by
    unfold columns
    rw [List.length_map, List.length_map]

theorem displayOf?_columns (m : Targets) (key : Text) :
    m.columns.displayOf? key = m.displayOf? key := by
  unfold TargetColumns.displayOf? displayOf?
  rw [find?_eq_bind_place?]
  cases m.columns.place? key with
  | none => rfl
  | some i =>
      show ((m.entries.map _)[i]?).map _ = (m.entries[i]?).map _
      rw [List.getElem?_map, Option.map_map]
      rfl

theorem flag_columns (m : Targets) (i : Nat) :
    m.columns.flags[i]?.getD false = (m.entries[i]?.map (·.aliased)).getD false := by
  show (m.entries.map _)[i]?.getD false = _
  rw [List.getElem?_map]

theorem isAliased_columns (m : Targets) (key : Text) :
    m.columns.isAliased key = m.isAliased key := by
  unfold TargetColumns.isAliased isAliased
  rw [find?_eq_bind_place?]
  cases m.columns.place? key with
  | none => rfl
  | some i =>
      dsimp only [Option.bind_some]
      rw [flag_columns]
      cases m.entries[i]? with
      | none => rfl
      | some t => rfl

/-! ## Inserting -/

theorem place?_withAliases (c : TargetColumns) (aliases : List (Text × Text)) (key : Text) :
    TargetColumns.place? { c with aliases } key = c.place? key := rfl

theorem push_columns (m : Targets) (key display : Text) (aliased : Bool)
    (aliases : List (Text × Text)) :
    TargetColumns.push { m.columns with aliases } key display aliased
      = columns ⟨m.entries ++ [⟨key, display, aliased⟩], aliases⟩ := by
  unfold TargetColumns.push columns
  simp [List.zipIdx_append]

/-- Writing a name into the entry of a key is writing it at the place of the key. -/
theorem map_rename_eq_set (h : m.keys.Nodup) {i : Nat} {t new : Target}
    (ht : m.entries[i]? = some t) (hkey : t.key = key) :
    m.entries.map (fun t => if t.key == key then new else t) = m.entries.set i new := by
  refine List.ext_getElem? fun j => ?_
  have hi := (List.getElem?_eq_some_iff.mp ht).1
  rw [List.getElem?_map, List.getElem?_set]
  split
  · next hij =>
      rw [← hij, ht, Option.map_some, if_pos (beq_iff_eq.mpr hkey)]
  · next hij =>
      cases hj : m.entries[j]? with
      | none => rfl
      | some u =>
          have hne : ¬ (u.key == key) = true := fun he =>
            hij (place_unique h ht hj (hkey.trans (eq_of_beq he).symm))
          rw [Option.map_some, if_neg hne]

/-- A new name and a flag at the place of an entry are a new entry in the columns. -/
theorem set_columns {i : Nat} {t : Target} (ht : m.entries[i]? = some t) (hkey : t.key = key)
    (display : Text) (aliases : List (Text × Text)) :
    (⟨m.columns.entries.modify i fun entry => (entry.1, display), m.columns.places,
        m.columns.flags.set i true, aliases⟩ : TargetColumns)
      = columns ⟨m.entries.set i ⟨key, display, true⟩, aliases⟩ := by
  have hentries : m.columns.entries.modify i (fun entry => (entry.1, display))
      = (m.entries.set i ⟨key, display, true⟩).map fun t => (t.key, t.display) := by
    refine List.ext_getElem? fun j => ?_
    rw [List.map_set, List.getElem?_modify, List.getElem?_set]
    unfold columns
    rw [List.getElem?_map]
    split
    · next hij =>
        rw [← hij, ht]
        simp [hkey, (List.getElem?_eq_some_iff.mp ht).1]
    · simp
  have hplaces : m.columns.places
      = (m.entries.set i ⟨key, display, true⟩).zipIdx.map fun (t, i) => (t.key, i) := by
    refine List.ext_getElem? fun j => ?_
    unfold columns
    rw [List.getElem?_map, List.getElem?_map, List.getElem?_zipIdx, List.getElem?_zipIdx,
      List.getElem?_set]
    split
    · next hij =>
        rw [← hij, ht]
        simp [hkey, (List.getElem?_eq_some_iff.mp ht).1]
    · rfl
  rw [hentries, hplaces]
  unfold columns
  simp [List.map_set]

theorem insert_columns (m : Targets) (key display : Text) :
    m.columns.insert key display
      = ((m.insert key display).1, (m.insert key display).2.columns) := by
  unfold TargetColumns.insert insert
  have hsome : (m.columns.place? key).isSome = (m.find? key).isSome := by
    cases hplace : m.columns.place? key with
    | none => rw [find?_eq_bind_place?, hplace]; rfl
    | some i =>
        obtain ⟨t, -, -, hfind⟩ := find?_of_place? hplace
        rw [hfind]
        rfl
  rw [hsome]
  split
  · rfl
  · exact congrArg (Prod.mk true) (push_columns m key display false m.aliases)

theorem insertAliased_columns (h : m.keys.Nodup) (key name display : Text) :
    m.columns.insertAliased key name display
      = ((m.insertAliased key name display).1, (m.insertAliased key name display).2.columns) := by
  have haliases : addAlias ⟨[], m.columns.aliases⟩ name key = m.addAlias name key := rfl
  unfold TargetColumns.insertAliased insertAliased
  simp only [place?_withAliases, haliases]
  cases hplace : m.columns.place? key with
  | none =>
      have hfind : m.find? key = none := by rw [find?_eq_bind_place?, hplace]; rfl
      simp only [hfind]
      exact congrArg (Prod.mk true) (push_columns m key display true (m.addAlias name key))
  | some i =>
      obtain ⟨t, ht, hkey, hfind⟩ := find?_of_place? hplace
      simp only [hfind, flag_columns, ht, Option.map_some, Option.getD_some]
      cases t.aliased with
      | true => rfl
      | false =>
          rw [if_neg Bool.false_ne_true, if_neg Bool.false_ne_true,
            map_rename_eq_set h ht hkey]
          exact congrArg (Prod.mk true) (set_columns ht hkey display (m.addAlias name key))

end Targets

end SeriesQuery
