import Mathlib.Algebra.Order.BigOperators.Group.List
import Mathlib.Algebra.Order.Group.Nat
import Mathlib.Data.List.Flatten
import SeriesQuery.Thinning

/-!
# Thinning out bucket by bucket

The edges of the buckets are quotients rounded down, and each bucket begins where the one before
it ends. So the buckets put together are the samples, and no bucket is empty unless there are
more buckets than samples. Both ways of thinning out keep some samples of each bucket, in their
order. What they do to one bucket carries over to all: what is kept is a sublist of the samples,
and it has at most as many samples as a bucket keeps, times the number of buckets.
-/

namespace SeriesQuery.Thinning

/-! ## Edges -/

section Edges

variable {n buckets : ℕ} (bucket : ℕ)

theorem edge_le : bucket * n / buckets ≤ (bucket + 1) * n / buckets :=
  Nat.div_le_div_right (Nat.mul_le_mul_right n bucket.le_succ)

/-- With a sample for each bucket no bucket ends where it begins. -/
theorem edge_lt (hpos : 0 < buckets) (hn : buckets ≤ n) :
    bucket * n / buckets < (bucket + 1) * n / buckets := by
  calc bucket * n / buckets < (bucket * n + buckets) / buckets := by
        rw [Nat.add_div_right _ hpos]
        exact Nat.lt_succ_self _
    _ ≤ (bucket + 1) * n / buckets := by
        rw [Nat.succ_mul]
        exact Nat.div_le_div_right (Nat.add_le_add_left hn _)

theorem edge_le_length {bucket : ℕ} (h : bucket ≤ buckets) (hpos : 0 < buckets) :
    bucket * n / buckets ≤ n := by
  calc bucket * n / buckets ≤ buckets * n / buckets :=
        Nat.div_le_div_right (Nat.mul_le_mul_right n h)
    _ = n := Nat.mul_div_cancel_left n hpos

end Edges

/-! ## Buckets -/

variable {samples : List Sample} {buckets : ℕ}

/-- Each bucket begins where the one before it ends. -/
theorem flatMap_bucketOf_eq_take (samples : List Sample) (buckets count : ℕ) :
    (List.range count).flatMap (bucketOf samples buckets)
      = samples.take (count * samples.length / buckets) := by
  induction count with
  | zero => simp
  | succ count ih =>
      -- the prefix grows by the width of the next bucket
      have hsplit : (count + 1) * samples.length / buckets = count * samples.length / buckets
          + ((count + 1) * samples.length / buckets - count * samples.length / buckets) :=
        (Nat.add_sub_of_le (edge_le count)).symm
      rw [List.range_succ, List.flatMap_append, ih, hsplit, List.take_add]
      simp [bucketOf, bucketBounds]

theorem flatMap_bucketOf (samples : List Sample) (hpos : 0 < buckets) :
    (List.range buckets).flatMap (bucketOf samples buckets) = samples := by
  rw [flatMap_bucketOf_eq_take, Nat.mul_div_cancel_left _ hpos, List.take_length]

theorem exists_mem_bucketOf (hpos : 0 < buckets) {s : Sample} (h : s ∈ samples) :
    ∃ bucket < buckets, s ∈ bucketOf samples buckets bucket := by
  rw [← flatMap_bucketOf samples hpos] at h
  obtain ⟨bucket, hbucket, hs⟩ := List.mem_flatMap.mp h
  exact ⟨bucket, List.mem_range.mp hbucket, hs⟩

theorem head?_bucketOf (bucket : ℕ) (hpos : 0 < buckets) (hn : buckets ≤ samples.length) :
    (bucketOf samples buckets bucket).head? = samples[bucket * samples.length / buckets]? := by
  have hwidth := Nat.sub_pos_of_lt (edge_lt bucket hpos hn)
  rw [bucketOf, bucketBounds, List.head?_take, if_neg hwidth.ne', List.head?_drop]

/-- Where there are no more buckets than samples, none is empty. -/
theorem bucketOf_ne_nil {bucket : ℕ} (hbucket : bucket < buckets)
    (hn : buckets ≤ samples.length) : bucketOf samples buckets bucket ≠ [] := by
  have hpos : 0 < buckets := (Nat.zero_le bucket).trans_lt hbucket
  have hstart : bucket * samples.length / buckets < samples.length :=
    (edge_lt bucket hpos hn).trans_le (edge_le_length hbucket hpos)
  intro hnil
  have hhead := head?_bucketOf bucket hpos hn
  rw [hnil, List.getElem?_eq_getElem hstart] at hhead
  cases hhead

/-! ## Some of each bucket -/

/-- What is kept of all buckets where `keep` says what is kept of one. -/
def ofBuckets (keep : List Sample → List Sample) (buckets : ℕ) (samples : List Sample) :
    List Sample :=
  (List.range buckets).flatMap fun bucket => keep (bucketOf samples buckets bucket)

variable {keep : List Sample → List Sample}

theorem mem_ofBuckets {s : Sample} : s ∈ ofBuckets keep buckets samples
    ↔ ∃ bucket < buckets, s ∈ keep (bucketOf samples buckets bucket) := by
  simp [ofBuckets]

/-- Samples kept of each bucket in their order are kept in their order. -/
theorem ofBuckets_sublist (hpos : 0 < buckets) (h : ∀ l, (keep l).Sublist l) :
    (ofBuckets keep buckets samples).Sublist samples := by
  have hall := List.Sublist.flatMap_right (List.range buckets)
    fun bucket _ => h (bucketOf samples buckets bucket)
  rwa [flatMap_bucketOf samples hpos] at hall

theorem length_ofBuckets_le {most : ℕ} (h : ∀ l, (keep l).length ≤ most) :
    (ofBuckets keep buckets samples).length ≤ buckets * most := by
  have hsum := List.sum_le_card_nsmul
    ((List.range buckets).map fun bucket => (keep (bucketOf samples buckets bucket)).length) most
    fun x hx => by
      obtain ⟨bucket, -, rfl⟩ := List.mem_map.mp hx
      exact h _
  rwa [List.length_map, List.length_range, Nat.nsmul_eq_mul, ← List.length_flatMap] at hsum

theorem length_ofBuckets {each : ℕ} (hn : buckets ≤ samples.length)
    (h : ∀ l ≠ [], (keep l).length = each) :
    (ofBuckets keep buckets samples).length = buckets * each := by
  have hwidth : ∀ bucket ∈ List.range buckets,
      (keep (bucketOf samples buckets bucket)).length = each :=
    fun bucket hbucket => h _ (bucketOf_ne_nil (List.mem_range.mp hbucket) hn)
  rw [ofBuckets, List.length_flatMap, List.map_congr_left hwidth]
  simp

/-- If the first of a bucket is always kept first, so is the first of all samples. -/
theorem head?_ofBuckets (hpos : 0 < buckets) (hn : buckets ≤ samples.length)
    (h : ∀ l, (keep l).head? = l.head?) :
    (ofBuckets keep buckets samples).head? = samples.head? := by
  obtain ⟨rest, rfl⟩ := Nat.exists_eq_add_one.mpr hpos
  have hfirst : (keep (bucketOf samples (rest + 1) 0)).head? = samples.head? := by
    rw [h, head?_bucketOf 0 hpos hn, Nat.zero_mul, Nat.zero_div, List.head?_eq_getElem?]
  have hsome : samples.head? ≠ none := by
    rw [ne_eq, List.head?_eq_none_iff, ← List.length_eq_zero_iff]
    omega
  rw [ofBuckets, List.range_succ_eq_map, List.flatMap_cons, List.head?_append, hfirst,
    Option.or_of_isSome (Option.isSome_iff_ne_none.mpr hsome)]

/-! ## The first of each bucket -/

theorem firsts_eq_ofBuckets (hpos : 0 < buckets) (hn : buckets ≤ samples.length) :
    firsts buckets samples = ofBuckets (fun l => l.head?.toList) buckets samples := by
  unfold firsts ofBuckets
  rw [List.filterMap_eq_flatMap_toList]
  simp only [head?_bucketOf _ hpos hn, bucketBounds]

theorem head?_toList_sublist (l : List Sample) : l.head?.toList.Sublist l := by
  cases l with
  | nil => exact List.Sublist.refl []
  | cons s rest => exact (List.nil_sublist rest).cons_cons s

/-! ## The smallest and the largest of each bucket -/

/-- The better one of the best so far and one more, which may not be a number. -/
def pick (better : Float → Float → Bool) (best s : Placed) : Placed :=
  if better s.1.value best.1.value then s else best

/-- The smallest and the largest are found independently. -/
theorem foldl_widen (l : List Placed) (low high : Placed) : l.foldl widen (low, high)
    = (l.foldl (pick fun x y => x < y) low, l.foldl (pick fun x y => y < x) high) := by
  induction l generalizing low high with
  | nil => rfl
  | cons s l ih =>
      have hstep : widen (low, high) s
          = (pick (fun x y => x < y) low s, pick (fun x y => y < x) high s) := by
        simp [widen, pick]
      rw [List.foldl_cons, hstep, ih]
      rfl

theorem foldl_pick_mem (better : Float → Float → Bool) (l : List Placed) (best : Placed) :
    l.foldl (pick better) best ∈ best :: l := by
  induction l generalizing best with
  | nil => exact List.mem_singleton_self best
  | cons s l ih =>
      rcases List.mem_cons.mp (ih (pick better best s)) with h | h
      · rw [List.foldl_cons, h]
        unfold pick
        split
        · exact List.mem_cons_of_mem _ List.mem_cons_self
        · exact List.mem_cons_self
      · exact List.mem_cons_of_mem _ (List.mem_cons_of_mem _ h)

/-- The best of the samples that begin with `s`, and its place among them. -/
def best (better : Float → Float → Bool) (s : Sample) (rest : List Sample) : Placed :=
  (rest.zipIdx 1).foldl (pick better) (s, 0)

theorem getElem?_best (better : Float → Float → Bool) (s : Sample) (rest : List Sample) :
    (s :: rest)[(best better s rest).2]? = some (best better s rest).1 :=
  List.mem_zipIdx_iff_getElem?.mp (foldl_pick_mem better (rest.zipIdx 1) (s, 0))

theorem extremes_cons (s : Sample) (rest : List Sample) :
    let low := best (fun x y => x < y) s rest
    let high := best (fun x y => y < x) s rest
    extremes (s :: rest) = if low.2 = high.2 then [low.1]
      else if low.2 < high.2 then [low.1, high.1] else [high.1, low.1] := by
  intro low high
  have hwiden : (rest.zipIdx 1).foldl widen ((s, 0), (s, 0)) = (low, high) := foldl_widen ..
  simp [extremes, hwiden]

/-- Two entries of a list are a sublist in the order of their places. -/
theorem pair_sublist {α : Type} {l : List α} {i j : ℕ} {a b : α} (hij : i < j)
    (hi : l[i]? = some a) (hj : l[j]? = some b) : [a, b].Sublist l := by
  have ha : a ∈ l.take j := List.mem_of_getElem? ((List.getElem?_take_of_lt hij).trans hi)
  have hb : b ∈ l.drop j := by
    refine List.mem_of_getElem? (i := 0) ?_
    rwa [List.getElem?_drop, Nat.add_zero]
  have h := (List.singleton_sublist.mpr ha).append (List.singleton_sublist.mpr hb)
  rwa [List.take_append_drop] at h

theorem extremes_sublist (l : List Sample) : (extremes l).Sublist l := by
  cases l with
  | nil => exact List.Sublist.refl []
  | cons s rest =>
      have hlow := getElem?_best (fun x y => x < y) s rest
      have hhigh := getElem?_best (fun x y => y < x) s rest
      rw [extremes_cons]
      split
      · exact List.singleton_sublist.mpr (List.mem_of_getElem? hlow)
      · next hne =>
          split
          · next hlt => exact pair_sublist hlt hlow hhigh
          · next hnlt => exact pair_sublist (by omega) hhigh hlow

theorem length_extremes_le (l : List Sample) : (extremes l).length ≤ 2 := by
  cases l with
  | nil => exact Nat.zero_le 2
  | cons s rest =>
      rw [extremes_cons]
      split
      · exact Nat.le_succ 1
      · split
        · exact le_rfl
        · exact le_rfl

/-- The smallest and the largest are kept, and nothing else. -/
theorem mem_extremes_cons {s x : Sample} {rest : List Sample} : x ∈ extremes (s :: rest)
    ↔ x = (best (fun x y => x < y) s rest).1 ∨ x = (best (fun x y => y < x) s rest).1 := by
  have hlow := getElem?_best (fun x y => x < y) s rest
  have hhigh := getElem?_best (fun x y => y < x) s rest
  rw [extremes_cons]
  split
  · next heq =>
      rw [heq, hhigh, Option.some.injEq] at hlow
      rw [hlow, List.mem_singleton, or_self]
  · split
    · rw [List.mem_pair]
    · rw [List.mem_pair, or_comm]

theorem extremes_ne_nil {l : List Sample} (h : l ≠ []) : extremes l ≠ [] := by
  obtain ⟨s, rest, rfl⟩ := List.exists_cons_of_ne_nil h
  exact List.ne_nil_of_mem (mem_extremes_cons.mpr (.inl rfl))

/-! ## Thinning out -/

/-- All that thinning out does: nothing within the limit, and beyond it the extremes of half as
many buckets, or the firsts of as many buckets as the limit says. -/
theorem apply_cases (method : Thinning) {limit : ℕ} (hlimit : 1 ≤ limit)
    (samples : List Sample) :
    (samples.length ≤ limit ∧ method.apply limit samples = samples)
      ∨ (limit < samples.length ∧ method = .peaks ∧ 2 ≤ limit
          ∧ method.apply limit samples = ofBuckets extremes (limit / 2) samples)
      ∨ (limit < samples.length ∧ (method = .even ∨ limit = 1)
          ∧ method.apply limit samples
            = ofBuckets (fun l => l.head?.toList) limit samples) := by
  have hzero : (limit == 0) = false := beq_false_of_ne (by omega)
  unfold apply
  rw [hzero, Bool.false_or]
  split
  · next hfits => exact .inl ⟨by simpa using hfits, rfl⟩
  · next hfits =>
      have hmore : limit < samples.length := by simpa using hfits
      split
      · next hpeaks =>
          obtain ⟨rfl, htwo⟩ : method = .peaks ∧ 2 ≤ limit := by simpa using hpeaks
          exact .inr (.inl ⟨hmore, rfl, htwo, rfl⟩)
      · next hpeaks =>
          -- the extremes of a bucket may be two, so a limit of one leaves the first only
          have hfirsts : method = .even ∨ limit = 1 := by
            cases method with
            | even => exact .inl rfl
            | peaks =>
                have : limit < 2 := by simpa using hpeaks
                omega
          exact .inr (.inr ⟨hmore, hfirsts, firsts_eq_ofBuckets hlimit hmore.le⟩)

variable (method : Thinning) {limit : ℕ} (hlimit : 1 ≤ limit) (samples : List Sample)

include hlimit

theorem apply_of_length_le {samples : List Sample} (h : samples.length ≤ limit) :
    method.apply limit samples = samples := by
  obtain ⟨-, heq⟩ | ⟨hmore, -⟩ | ⟨hmore, -⟩ := apply_cases method hlimit samples
  · exact heq
  · omega
  · omega

theorem apply_sublist : (method.apply limit samples).Sublist samples := by
  obtain ⟨-, heq⟩ | ⟨-, -, htwo, heq⟩ | ⟨-, -, heq⟩ := apply_cases method hlimit samples
  · rw [heq]
  · rw [heq]
    exact ofBuckets_sublist (by omega) extremes_sublist
  · rw [heq]
    exact ofBuckets_sublist hlimit head?_toList_sublist

theorem length_apply_le : (method.apply limit samples).length ≤ limit := by
  obtain ⟨hfits, heq⟩ | ⟨-, -, -, heq⟩ | ⟨-, -, heq⟩ := apply_cases method hlimit samples
  · rwa [heq]
  · rw [heq]
    exact (length_ofBuckets_le length_extremes_le).trans (Nat.div_mul_le_self limit 2)
  · rw [heq]
    exact (length_ofBuckets_le fun l => Option.length_toList_le).trans_eq (Nat.mul_one limit)

theorem apply_ne_nil {samples : List Sample} (h : samples ≠ []) :
    method.apply limit samples ≠ [] := by
  obtain ⟨-, heq⟩ | ⟨hmore, -, htwo, heq⟩ | ⟨hmore, -, heq⟩ := apply_cases method hlimit samples
  · rwa [heq]
  · rw [heq]
    have hbucket : bucketOf samples (limit / 2) 0 ≠ [] := bucketOf_ne_nil (by omega) (by omega)
    obtain ⟨s, hs⟩ := List.exists_mem_of_ne_nil _ (extremes_ne_nil hbucket)
    exact List.ne_nil_of_mem (mem_ofBuckets.mpr ⟨0, by omega, hs⟩)
  · rw [heq, ne_eq, ← List.head?_eq_none_iff, head?_ofBuckets hlimit hmore.le (by simp),
      List.head?_eq_none_iff]
    exact h

/-- Beyond the limit evenly spaced samples reach it, and the first of them is the first of all. -/
theorem apply_even {samples : List Sample} (h : limit < samples.length) :
    (Thinning.even.apply limit samples).length = limit
      ∧ (Thinning.even.apply limit samples).head? = samples.head? := by
  obtain ⟨hfits, -⟩ | ⟨-, hpeaks, -⟩ | ⟨-, -, heq⟩ := apply_cases .even hlimit samples
  · omega
  · cases hpeaks
  · rw [heq]
    have hone : ∀ l : List Sample, l ≠ [] → l.head?.toList.length = 1 := by
      intro l hl
      obtain ⟨s, rest, rfl⟩ := List.exists_cons_of_ne_nil hl
      rfl
    exact ⟨(length_ofBuckets h.le hone).trans (Nat.mul_one limit),
      head?_ofBuckets hlimit h.le (by simp)⟩

end SeriesQuery.Thinning
