import SeriesQuery.Proofs.Buckets
import SeriesQuery.Proofs.SampleValues
import SeriesQuery.Proofs.ValueRanks

/-!
# Which extremes survive thinning out

Of a bucket the smallest and the largest sample are kept, and they are looked for by comparing
each sample with the best so far, from the first sample of the bucket on. A value that is no
number is neither better nor worse than any other: met later it is passed over, but as the first
one it is never replaced, and then it is all that is kept of its bucket. So a largest sample
survives exactly if one stands in a bucket that begins with a number, and so does a smallest one.

Smallest and largest are the same thing with ranks the other way round, and what is said of both
here is proved once, for values of the lowest rank.
-/

namespace SeriesQuery

open Binary64

/-! ## The lowest rank -/

/-- A sample of a rank as low as that of any number among some samples. -/
def Leads (rank : Float → ℚ) (samples : List Sample) (s : Sample) : Prop :=
  ∀ x ∈ samples, ¬ IsNaN x.value → ¬ IsNaN s.value ∧ rank s.value ≤ rank x.value

/-- A sample as large as any number among some samples. -/
def Largest (samples : List Sample) (s : Sample) : Prop :=
  ∀ x ∈ samples, ¬ IsNaN x.value → x.value ≤ s.value

/-- A sample as small as any number among some samples. -/
def Smallest (samples : List Sample) (s : Sample) : Prop :=
  ∀ x ∈ samples, ¬ IsNaN x.value → s.value ≤ x.value

theorem smallest_iff_leads {samples : List Sample} {s : Sample} :
    Smallest samples s ↔ Leads value samples s := by
  refine forall₂_congr fun x _ => forall_congr' fun hx => ?_
  rw [le_iff]
  exact ⟨fun h => ⟨h.1, h.2.2⟩, fun h => ⟨h.1, hx, h.2⟩⟩

theorem largest_iff_leads {samples : List Sample} {s : Sample} :
    Largest samples s ↔ Leads (fun x => -value x) samples s := by
  refine forall₂_congr fun x _ => forall_congr' fun hx => ?_
  rw [le_iff, neg_le_neg_iff]
  exact ⟨fun h => ⟨h.2.1, h.2.2⟩, fun h => ⟨hx, h.1, h.2⟩⟩

namespace Thinning

/-! ## Looking for the best -/

section Best

variable {better : Float → Float → Bool} {rank : Float → ℚ} (h : RanksBy better rank)

include h

/-- What is no number is never replaced. -/
theorem foldl_pick_of_isNaN (start : Placed) (hstart : IsNaN start.1.value) (l : List Placed) :
    l.foldl (pick better) start = start := by
  induction l with
  | nil => rfl
  | cons s l ih =>
      have hworse : ¬ better s.1.value start.1.value = true :=
        fun hbetter => ((h _ _).mp hbetter).2.1 hstart
      rw [List.foldl_cons, pick, if_neg hworse, ih]

/-- A number is replaced by every number of a lower rank. -/
theorem foldl_pick_leads (start : Placed) (hstart : ¬ IsNaN start.1.value) (l : List Placed) :
    Leads rank ((start :: l).map (·.1)) (l.foldl (pick better) start).1 := by
  induction l generalizing start with
  | nil =>
      intro x hx _
      obtain rfl : x = start.1 := List.mem_singleton.mp hx
      exact ⟨hstart, le_rfl⟩
  | cons s l ih =>
      rw [List.foldl_cons]
      intro x hx hn
      rw [List.map_cons, List.map_cons, List.mem_cons, List.mem_cons] at hx
      -- the step leaves a number whose rank is at most that of `start` and of `s`
      obtain ⟨hpick, hle, hle'⟩ : ¬ IsNaN (pick better start s).1.value
          ∧ rank (pick better start s).1.value ≤ rank start.1.value
          ∧ (¬ IsNaN s.1.value → rank (pick better start s).1.value ≤ rank s.1.value) := by
        unfold pick
        split
        · next hbetter =>
            obtain ⟨hs, -, hlt⟩ := (h _ _).mp hbetter
            exact ⟨hs, hlt.le, fun _ => le_rfl⟩
        · next hworse =>
            refine ⟨hstart, le_rfl, fun hs => le_of_not_gt fun hlt => hworse ?_⟩
            exact (h _ _).mpr ⟨hs, hstart, hlt⟩
      have hbest := ih _ hpick
      obtain ⟨hnumber, hfirst⟩ := hbest _ List.mem_cons_self hpick
      refine ⟨hnumber, ?_⟩
      rcases hx with rfl | rfl | hx
      · exact hfirst.trans hle
      · exact hfirst.trans (hle' hn)
      · exact (hbest x (List.mem_cons_of_mem _ hx) hn).2

theorem best_of_isNaN {s : Sample} (hs : IsNaN s.value) (rest : List Sample) :
    (best better s rest).1 = s := by
  rw [best, foldl_pick_of_isNaN h (s, 0) hs]

theorem best_leads {s : Sample} (hs : ¬ IsNaN s.value) (rest : List Sample) :
    Leads rank (s :: rest) (best better s rest).1 := by
  have hbest := foldl_pick_leads h (s, 0) hs (rest.zipIdx 1)
  rwa [List.map_cons, List.zipIdx_map_fst] at hbest

/-- Samples with a number among them have one of the lowest rank. -/
theorem exists_leads {samples : List Sample} (hnumber : ∃ s ∈ samples, ¬ IsNaN s.value) :
    ∃ s ∈ samples, Leads rank samples s := by
  obtain ⟨s, hs, hn⟩ := hnumber
  refine ⟨_, ?_, fun x hx => best_leads h hn samples x (List.mem_cons_of_mem s hx)⟩
  rcases List.mem_cons.mp (List.mem_of_getElem? (getElem?_best better s samples)) with hbest | hbest
  · rwa [hbest]
  · exact hbest

end Best

/-! ## The extremes of the buckets -/

/-- Samples the first of which is a number. -/
def BeginsWithNumber (l : List Sample) : Prop := ∃ s ∈ l.head?, ¬ IsNaN s.value

/-- Of a bucket that begins with no number only that is kept. -/
theorem beginsWithNumber_of_mem_extremes {l : List Sample} {s : Sample} (h : s ∈ extremes l)
    (hs : ¬ IsNaN s.value) : BeginsWithNumber l := by
  cases l with
  | nil => cases h
  | cons first rest =>
      refine ⟨first, rfl, fun hfirst => hs ?_⟩
      rcases mem_extremes_cons.mp h with rfl | rfl
      · rwa [best_of_isNaN ranksBy_value hfirst rest]
      · rwa [best_of_isNaN ranksBy_neg_value hfirst rest]

/-- A sample that stands in one of the buckets that begin with a number. -/
def StandsAfterNumber (samples : List Sample) (buckets : ℕ) (s : Sample) : Prop :=
  ∃ bucket < buckets, s ∈ bucketOf samples buckets bucket
    ∧ BeginsWithNumber (bucketOf samples buckets bucket)

section Survival

variable {better : Float → Float → Bool} {rank : Float → ℚ} (h : RanksBy better rank)
  (hkept : ∀ s rest, (best better s rest).1 ∈ extremes (s :: rest)) {limit : ℕ}
  (hlimit : 2 ≤ limit) {samples : List Sample} (hnumber : ∃ s ∈ samples, ¬ IsNaN s.value)

include h hkept in
/-- A sample of the lowest rank in a bucket that begins with a number is kept, or else another
one of that rank. -/
theorem exists_mem_extremes_leads {l : List Sample} {s : Sample} (hs : s ∈ l)
    (hl : BeginsWithNumber l) (hleads : Leads rank samples s) :
    ∃ x ∈ extremes l, Leads rank samples x := by
  obtain ⟨first, hfirst, hn⟩ := hl
  obtain ⟨rest, rfl⟩ : ∃ rest, l = first :: rest := by
    cases l with
    | nil => cases hfirst
    | cons s' rest =>
        obtain rfl : s' = first := Option.some.inj hfirst
        exact ⟨rest, rfl⟩
  refine ⟨_, hkept first rest, fun x hx hxn => ?_⟩
  obtain ⟨hsn, hle⟩ := hleads x hx hxn
  obtain ⟨hbn, hbest⟩ := best_leads h hn rest s hs hsn
  exact ⟨hbn, hbest.trans hle⟩

include h hkept hlimit hnumber

theorem exists_leads_apply_iff :
    (∃ s ∈ Thinning.peaks.apply limit samples, Leads rank samples s)
      ↔ samples.length ≤ limit
        ∨ ∃ s, Leads rank samples s ∧ StandsAfterNumber samples (limit / 2) s := by
  obtain ⟨hfits, heq⟩ | ⟨hmore, -, -, heq⟩ | ⟨-, heven | hone, -⟩ :=
    apply_cases .peaks (show 1 ≤ limit by omega) samples
  · rw [heq]
    exact iff_of_true (exists_leads h hnumber) (.inl hfits)
  · rw [heq]
    constructor
    · rintro ⟨s, hs, hleads⟩
      obtain ⟨bucket, hbucket, hmem⟩ := mem_ofBuckets.mp hs
      obtain ⟨x, hx, hxn⟩ := hnumber
      have hbegins := beginsWithNumber_of_mem_extremes hmem (hleads x hx hxn).1
      exact .inr ⟨s, hleads, bucket, hbucket, (extremes_sublist _).subset hmem, hbegins⟩
    · rintro (hfits | ⟨s, hleads, bucket, hbucket, hs, hbegins⟩)
      · omega
      · obtain ⟨x, hx, hxleads⟩ := exists_mem_extremes_leads h hkept hs hbegins hleads
        exact ⟨x, mem_ofBuckets.mpr ⟨bucket, hbucket, hx⟩, hxleads⟩
  · cases heven
  · omega

theorem exists_leads_apply
    (hbegin : ∀ bucket < limit / 2, ∀ s ∈ (bucketOf samples (limit / 2) bucket).head?,
      ¬ IsNaN s.value) :
    ∃ s ∈ Thinning.peaks.apply limit samples, Leads rank samples s := by
  obtain ⟨s, hs, hleads⟩ := exists_leads h hnumber
  obtain ⟨bucket, hbucket, hmem⟩ := exists_mem_bucketOf (show 0 < limit / 2 by omega) hs
  obtain ⟨first, hfirst⟩ : ∃ first, (bucketOf samples (limit / 2) bucket).head? = some first :=
    Option.isSome_iff_exists.mp (List.isSome_head?.mpr (List.ne_nil_of_mem hmem))
  exact (exists_leads_apply_iff h hkept hlimit hnumber).mpr
    (.inr ⟨s, hleads, bucket, hbucket, hmem, first, hfirst, hbegin bucket hbucket first hfirst⟩)

end Survival

/-- Beyond the limit a largest sample survives exactly if one stands in a bucket that begins with
a number, and so does a smallest one. So both survive where no bucket begins with what is no
number. -/
theorem peaks_keep_extremes {limit : ℕ} (hlimit : 2 ≤ limit) {samples : List Sample}
    (hnumber : ∃ s ∈ samples, ¬ IsNaN s.value) :
    let kept := Thinning.peaks.apply limit samples
    ((∃ s ∈ kept, Largest samples s) ↔ samples.length ≤ limit
        ∨ ∃ s, Largest samples s ∧ StandsAfterNumber samples (limit / 2) s)
      ∧ ((∃ s ∈ kept, Smallest samples s) ↔ samples.length ≤ limit
        ∨ ∃ s, Smallest samples s ∧ StandsAfterNumber samples (limit / 2) s)
      ∧ ((∀ bucket < limit / 2, ∀ s ∈ (bucketOf samples (limit / 2) bucket).head?,
          ¬ IsNaN s.value) →
        (∃ s ∈ kept, Largest samples s) ∧ ∃ s ∈ kept, Smallest samples s) := by
  intro kept
  have hlow : ∀ s rest, (best (fun x y => x < y) s rest).1 ∈ extremes (s :: rest) :=
    fun s rest => mem_extremes_cons.mpr (.inl rfl)
  have hhigh : ∀ s rest, (best (fun x y => y < x) s rest).1 ∈ extremes (s :: rest) :=
    fun s rest => mem_extremes_cons.mpr (.inr rfl)
  simp only [largest_iff_leads, smallest_iff_leads]
  exact ⟨exists_leads_apply_iff ranksBy_neg_value hhigh hlimit hnumber,
    exists_leads_apply_iff ranksBy_value hlow hlimit hnumber, fun hbegin =>
      ⟨exists_leads_apply ranksBy_neg_value hhigh hlimit hnumber hbegin,
        exists_leads_apply ranksBy_value hlow hlimit hnumber hbegin⟩⟩

/-- A spike behind what is no number survives where its bucket begins with a number. -/
theorem peaks_keep_extremes_spike :
    let point (value time : Float) : Sample := .of (Text.of "A") value time 0
    let samples := [point 1.0 1000.0, point (0.0 / 0.0) 2000.0, point 9.0 3000.0,
      point 2.0 4000.0, point (-3.0) 5000.0, point (0.0 / 0.0) 6000.0]
    (∃ s ∈ samples, ¬ IsNaN s.value)
      ∧ (∀ bucket < 4 / 2, ∀ s ∈ (bucketOf samples (4 / 2) bucket).head?, ¬ IsNaN s.value)
      ∧ (∃ s ∈ Thinning.peaks.apply 4 samples, Largest samples s)
      ∧ ∃ s ∈ Thinning.peaks.apply 4 samples, Smallest samples s := by
  intro point samples
  have hone : ¬ IsNaN (point 1.0 1000.0).value := by
    rw [Sample.value_of]
    exact not_isNaN_of_isFinite rfl
  have hnumber : ∃ s ∈ samples, ¬ IsNaN s.value := ⟨point 1.0 1000.0, by simp [samples], hone⟩
  have hfinite : ∀ bucket < 4 / 2, ∀ s ∈ (bucketOf samples (4 / 2) bucket).head?,
      s.value.isFinite = true := by decide +kernel
  have hbegin : ∀ bucket < 4 / 2, ∀ s ∈ (bucketOf samples (4 / 2) bucket).head?,
      ¬ IsNaN s.value :=
    fun bucket hbucket s hs => not_isNaN_of_isFinite (hfinite bucket hbucket s hs)
  obtain ⟨-, -, hboth⟩ := peaks_keep_extremes (show 2 ≤ 4 by norm_num) hnumber
  exact ⟨hnumber, hbegin, hboth hbegin⟩

/-- Of a bucket that begins with what is no number neither extreme is kept. -/
theorem peaks_lose_extremes :
    let point (value time : Float) : Sample := .of (Text.of "A") value time 0
    let samples := [point (0.0 / 0.0) 1000.0, point 5.0 2000.0, point 1.0 3000.0]
    (∃ s ∈ samples, ¬ IsNaN s.value)
      ∧ Thinning.peaks.apply 2 samples = [point (0.0 / 0.0) 1000.0]
      ∧ (¬ ∃ s ∈ Thinning.peaks.apply 2 samples, Largest samples s)
      ∧ ¬ ∃ s ∈ Thinning.peaks.apply 2 samples, Smallest samples s := by
  intro point samples
  have hnan : IsNaN (point (0.0 / 0.0) 1000.0).value := by
    rw [Sample.value_of]
    rfl
  have hfive : ¬ IsNaN (point 5.0 2000.0).value := by
    rw [Sample.value_of]
    exact not_isNaN_of_isFinite rfl
  have hmem : point 5.0 2000.0 ∈ samples := by simp [samples]
  have hkept : Thinning.peaks.apply 2 samples = [point (0.0 / 0.0) 1000.0] := by decide +kernel
  refine ⟨⟨point 5.0 2000.0, hmem, hfive⟩, hkept, ?_, ?_⟩
  · rintro ⟨s, hs, hlargest⟩
    rw [hkept, List.mem_singleton] at hs
    rw [hs] at hlargest
    exact (le_iff.mp (hlargest _ hmem hfive)).2.1 hnan
  · rintro ⟨s, hs, hsmallest⟩
    rw [hkept, List.mem_singleton] at hs
    rw [hs] at hsmallest
    exact (le_iff.mp (hsmallest _ hmem hfive)).1 hnan

end Thinning

end SeriesQuery
