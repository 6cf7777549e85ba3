import Mathlib.Data.List.Sort
import SeriesQuery.Source

/-!
# What an archive gives

An archive notes the place of every sample under its key as it is added. For some keys it takes the
places noted under them, puts them in order and drops those that come twice, and gives the samples
there that are in the window. That is no more and no less than going through all samples: `select`
is a filter, whatever the keys and however often one of them is asked for.

Both ways lead through the samples numbered by their places. What is noted under a key are the
numbers of its samples, and numbers in order are told by which there are.
-/

namespace SeriesQuery

/-! ## Places by key -/

namespace Index

theorem find?_noteEntry (key other : Text) (place : Nat) (entries : List (Text × List Nat)) :
    (noteEntry key place entries).find? (·.1 == other)
      = if key = other then
          some (key, place :: ((entries.find? (·.1 == key)).elim [] (·.2)))
        else entries.find? (·.1 == other) := by
  induction entries with
  | nil => by_cases h : key = other <;> simp [noteEntry, h]
  | cons entry rest ih =>
      obtain ⟨k, places⟩ := entry
      rw [noteEntry]
      by_cases hk : k = key
      · subst hk
        by_cases h : k = other <;> simp [h]
      · by_cases hko : k = other
        · subst hko
          simp [hk, Ne.symm hk]
        · simp [hk, hko, ih]

/-- A place is noted behind the others of its key, and under no other key. -/
theorem placesOf_note (x : Index) (key other : Text) (place : Nat) :
    (x.note key place).placesOf other
      = if key = other then x.placesOf other ++ [place] else x.placesOf other := by
  unfold placesOf note
  rw [find?_noteEntry]
  by_cases h : key = other
  · subst h
    rw [if_pos rfl, if_pos rfl]
    cases x.entries.find? (·.1 == key) with
    | none => rfl
    | some entry => exact List.reverse_cons
  · rw [if_neg h, if_neg h]

/-- What a run of notes leaves under a key. -/
theorem placesOf_foldl_note (numbered : List (Sample × Nat)) (x : Index) (key : Text) :
    (numbered.foldl (fun x (s, place) => x.note s.key place) x).placesOf key
      = x.placesOf key ++ (numbered.filter (·.1.key == key)).map (·.2) := by
  induction numbered generalizing x with
  | nil => exact (List.append_nil _).symm
  | cons entry rest ih =>
      obtain ⟨s, place⟩ := entry
      rw [List.foldl_cons, ih, placesOf_note, List.filter_cons]
      by_cases h : s.key = key
      · rw [if_pos h, if_pos (beq_iff_eq.mpr h), List.map_cons, List.append_assoc]
        rfl
      · rw [if_neg h, if_neg fun he => h (eq_of_beq he)]

end Index

/-! ## Numbers in order -/

theorem mem_dropRepeats {n : Nat} {numbers : List Nat} : n ∈ dropRepeats numbers ↔ n ∈ numbers := by
  fun_induction dropRepeats numbers with
  | case1 a b rest h ih =>
      rw [ih, eq_of_beq h]
      simp
  | case2 a b rest h ih => rw [List.mem_cons, ih, ← List.mem_cons]
  | case3 numbers => exact Iff.rfl

/-- Numbers in order grow once repetitions are dropped. -/
theorem pairwise_lt_dropRepeats {numbers : List Nat} (h : numbers.Pairwise (· ≤ ·)) :
    (dropRepeats numbers).Pairwise (· < ·) := by
  fun_induction dropRepeats numbers with
  | case1 a b rest hab ih => exact ih h.of_cons
  | case2 a b rest hab ih =>
      obtain ⟨ha, hrest⟩ := List.pairwise_cons.mp h
      refine List.pairwise_cons.mpr ⟨fun n hn => ?_, ih hrest⟩
      -- The number behind `a` is another, and all numbers after that are no smaller.
      have hb : a ≤ b := ha b List.mem_cons_self
      have hne : a ≠ b := fun he => hab (beq_iff_eq.mpr he)
      have hle : b ≤ n := by
        rcases List.mem_cons.mp (mem_dropRepeats.mp hn) with rfl | hn
        · exact le_refl n
        · exact (List.pairwise_cons.mp hrest).1 n hn
      omega
  | case3 numbers hshort =>
      match numbers, hshort with
      | [], _ => exact .nil
      | [a], _ => exact List.pairwise_singleton _ a
      | a :: b :: rest, hshort => exact absurd rfl (hshort a b rest)

/-! ## Archives -/

namespace Archive

theorem foldl_push (a : Archive) (pushed : List Sample) :
    pushed.foldl push a = ⟨a.samples ++ pushed⟩ := by
  induction pushed generalizing a with
  | nil => rw [List.append_nil, List.foldl_nil]
  | cons s rest ih =>
      rw [List.foldl_cons, ih, push, List.append_assoc]
      rfl

/-- Under a key are the numbers of its samples. -/
theorem placesOf_index (a : Archive) (key : Text) :
    a.index.placesOf key = (a.samples.zipIdx.filter (·.1.key == key)).map (·.2) :=
  Index.placesOf_foldl_note a.samples.zipIdx Index.empty key

theorem pairwise_lt_zipIdx (samples : List Sample) :
    (samples.zipIdx.map (·.2)).Pairwise (· < ·) := by
  rw [List.zipIdx_map_snd]
  exact List.pairwise_lt_range'

/-- The places of some keys are the numbers of their samples, in order. -/
theorem places_eq (a : Archive) (keys : List Text) :
    a.places keys = (a.samples.zipIdx.filter fun p => keys.contains p.1.key).map (·.2) := by
  have hsorted : (a.places keys).Pairwise (· < ·) :=
    pairwise_lt_dropRepeats (List.pairwise_mergeSort' (· ≤ ·) _)
  have hnumbers : ((a.samples.zipIdx.filter fun p => keys.contains p.1.key).map (·.2)).Pairwise
      (· < ·) := (pairwise_lt_zipIdx a.samples).sublist (List.filter_sublist.map _)
  refine hsorted.eq_of_mem_iff hnumbers fun n => ?_
  unfold places
  rw [mem_dropRepeats, List.mem_mergeSort, List.mem_flatMap]
  simp only [placesOf_index, List.mem_map, List.mem_filter, List.contains_iff_mem, beq_iff_eq]
  constructor
  · rintro ⟨key, hkey, p, ⟨hp, rfl⟩, rfl⟩
    exact ⟨p, ⟨hp, hkey⟩, rfl⟩
  · rintro ⟨p, ⟨hp, hkey⟩, rfl⟩
    exact ⟨p.1.key, hkey, p, ⟨hp, rfl⟩, rfl⟩

/-- An archive gives the samples of the keys in the window, each as often as it was added and in
the order they were added. -/
theorem select_eq (a : Archive) (keys : List Text) (range : TimeRange) :
    a.select keys range
      = a.samples.filter fun s => keys.contains s.key && range.contains s.time := by
  have hread : ∀ p ∈ a.samples.zipIdx.filter fun p => keys.contains p.1.key,
      a.samples.toArray[p.2]? = some p.1 := by
    intro p hp
    rw [List.getElem?_toArray]
    exact List.mem_zipIdx_iff_getElem?.mp (List.mem_of_mem_filter hp)
  have hall : (a.places keys).filterMap (a.samples.toArray[·]?)
      = a.samples.filter fun s => keys.contains s.key := by
    rw [places_eq, List.filterMap_map]
    calc _ = List.filterMap (some ∘ Prod.fst) _ := List.filterMap_congr hread
      _ = List.map Prod.fst _ := congrFun List.filterMap_eq_map _
      _ = (a.samples.zipIdx.map Prod.fst).filter fun s => keys.contains s.key := by
          rw [List.filter_map]
          rfl
      _ = _ := by rw [List.zipIdx_map_fst]
  unfold select
  dsimp only
  rw [hall, List.filter_filter]
  exact List.filter_congr fun s _ => Bool.and_comm _ _

end Archive

end SeriesQuery
