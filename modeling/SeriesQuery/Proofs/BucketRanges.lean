import SeriesQuery.Proofs.Buckets

/-!
# The ranges of the buckets

The range of a bucket goes from its edge to the next one. An edge rounded down is at most an index
exactly if the quotient before rounding is below the next index, and that bounds the number of the
edge by another quotient. So the two quotients form a Galois connection: an edge lies at or before
an index exactly if its number is at most the bucket of the index. All there is to know of which
range holds an index is read off this, without going through the buckets one after another.

So much holds in the natural numbers. The program counts in words of 64 bits, where the product
before a quotient may be cut off, and then the last range ends too early.
-/

namespace SeriesQuery.Thinning

/-! ## The bucket of an index -/

section Ranges

variable {n buckets : ℕ}

/-- The bucket whose range holds an index below `n`. -/
def bucketAt (n buckets index : ℕ) : ℕ :=
  ((index + 1) * buckets - 1) / n

theorem edge_le_iff (hpos : 0 < buckets) (hn : 0 < n) {bucket index : ℕ} :
    bucket * n / buckets ≤ index ↔ bucket ≤ bucketAt n buckets index := by
  have hproduct : 0 < (index + 1) * buckets := Nat.mul_pos index.succ_pos hpos
  calc bucket * n / buckets ≤ index
      ↔ bucket * n / buckets < index + 1 := Nat.lt_succ_iff.symm
    _ ↔ bucket * n < (index + 1) * buckets := Nat.div_lt_iff_lt_mul hpos
    _ ↔ bucket * n ≤ (index + 1) * buckets - 1 := (Nat.le_sub_one_iff_lt hproduct).symm
    _ ↔ bucket ≤ bucketAt n buckets index := (Nat.le_div_iff_mul_le hn).symm

theorem bucketAt_lt_iff (hpos : 0 < buckets) (hn : 0 < n) {index : ℕ} :
    bucketAt n buckets index < buckets ↔ index < n := by
  rw [← not_le, ← edge_le_iff hpos hn, Nat.mul_div_cancel_left n hpos, not_le]

/-- The range that holds an index is the last one to begin at or before it. -/
theorem bucketBounds_hold_iff (hpos : 0 < buckets) (hn : 0 < n) {bucket index : ℕ} :
    (bucketBounds n buckets bucket).1 ≤ index ∧ index < (bucketBounds n buckets bucket).2
      ↔ bucket = bucketAt n buckets index := by
  have hstart : (bucketBounds n buckets bucket).1 ≤ index ↔ bucket ≤ bucketAt n buckets index :=
    edge_le_iff hpos hn
  have hstop : (bucketBounds n buckets bucket).2 ≤ index ↔ bucket + 1 ≤ bucketAt n buckets index :=
    edge_le_iff hpos hn
  omega

theorem existsUnique_bucketBounds (hpos : 0 < buckets) {index : ℕ} (hindex : index < n) :
    ∃! bucket, bucket < buckets ∧ (bucketBounds n buckets bucket).1 ≤ index
      ∧ index < (bucketBounds n buckets bucket).2 := by
  have hn : 0 < n := (Nat.zero_le index).trans_lt hindex
  refine ⟨bucketAt n buckets index, ⟨(bucketAt_lt_iff hpos hn).mpr hindex, ?_⟩, ?_⟩
  · exact (bucketBounds_hold_iff hpos hn).mpr rfl
  · rintro bucket ⟨-, hholds⟩
    exact (bucketBounds_hold_iff hpos hn).mp hholds

/-! ## How long the ranges are -/

/-- From an edge to the next it is the quotient of samples and buckets, or one more where the
remainders make up another index. -/
theorem edge_succ (hpos : 0 < buckets) (bucket : ℕ) :
    (bucket + 1) * n / buckets = bucket * n / buckets + n / buckets
      ∨ (bucket + 1) * n / buckets = bucket * n / buckets + n / buckets + 1 := by
  rw [Nat.succ_mul, Nat.add_div hpos]
  split
  · exact .inr rfl
  · exact .inl rfl

theorem bucketBounds_width (hpos : 0 < buckets) (bucket : ℕ) :
    (bucketBounds n buckets bucket).2 - (bucketBounds n buckets bucket).1 = n / buckets
      ∨ (bucketBounds n buckets bucket).2 - (bucketBounds n buckets bucket).1
        = n / buckets + 1 := by
  unfold bucketBounds
  obtain hstop | hstop := @edge_succ n buckets hpos bucket
  · exact .inl (by rw [hstop, Nat.add_sub_cancel_left])
  · exact .inr (by rw [hstop, Nat.add_assoc, Nat.add_sub_cancel_left])

/-- Ranges of so many buckets that cut the indices below `n` into pieces of nearly equal length. -/
structure Tiles (n buckets : ℕ) (bounds : ℕ → ℕ × ℕ) : Prop where
  /-- The first range begins at zero. -/
  starts : (bounds 0).1 = 0
  /-- The last one ends at `n`. -/
  stops : (bounds (buckets - 1)).2 = n
  /-- A range does not end before it begins, nor behind `n`. -/
  forward : ∀ bucket < buckets,
    (bounds bucket).1 ≤ (bounds bucket).2 ∧ (bounds bucket).2 ≤ n
  /-- It ends where the next one begins. -/
  follows : ∀ bucket, bucket + 1 < buckets → (bounds bucket).2 = (bounds (bucket + 1)).1
  /-- Each index stands in exactly one of them. -/
  covers : ∀ index < n, ∃! bucket,
    bucket < buckets ∧ (bounds bucket).1 ≤ index ∧ index < (bounds bucket).2
  /-- Their widths differ by at most one. -/
  widths : ∀ bucket < buckets, ∀ other < buckets,
    (bounds bucket).2 - (bounds bucket).1 ≤ (bounds other).2 - (bounds other).1 + 1
  /-- With an index for each none of them is empty. -/
  nonempty : buckets ≤ n → ∀ bucket < buckets, (bounds bucket).1 < (bounds bucket).2

/-- Counted in natural numbers the ranges of the buckets always do. -/
theorem tiles_bucketBounds (n : ℕ) (hpos : 0 < buckets) :
    Tiles n buckets (bucketBounds n buckets) where
  starts := by rw [bucketBounds, Nat.zero_mul, Nat.zero_div]
  stops := by
    rw [bucketBounds, Nat.sub_add_cancel hpos, Nat.mul_div_cancel_left n hpos]
  forward bucket hbucket := ⟨edge_le bucket, edge_le_length hbucket hpos⟩
  follows _ _ := rfl
  covers _ := existsUnique_bucketBounds hpos
  widths bucket _ other _ := by
    have hwidth := @bucketBounds_width n buckets hpos bucket
    have hother := @bucketBounds_width n buckets hpos other
    omega
  nonempty hn bucket _ := edge_lt bucket hpos hn

/-- Whether ranges tile depends on those of the buckets alone. -/
theorem Tiles.congr {bounds bounds' : ℕ → ℕ × ℕ} (h : Tiles n buckets bounds) (hpos : 0 < buckets)
    (hsame : ∀ bucket < buckets, bounds' bucket = bounds bucket) : Tiles n buckets bounds' where
  starts := by
    rw [hsame 0 hpos]
    exact h.starts
  stops := by
    rw [hsame _ (Nat.sub_lt hpos Nat.one_pos)]
    exact h.stops
  forward bucket hbucket := by
    rw [hsame bucket hbucket]
    exact h.forward bucket hbucket
  follows bucket hnext := by
    rw [hsame _ hnext, hsame bucket (Nat.lt_of_succ_lt hnext)]
    exact h.follows bucket hnext
  covers index hindex := by
    obtain ⟨bucket, ⟨hbucket, hholds⟩, honly⟩ := h.covers index hindex
    refine ⟨bucket, ⟨hbucket, by rwa [hsame bucket hbucket]⟩, fun other hother => ?_⟩
    refine honly other ⟨hother.1, ?_⟩
    rw [← hsame other hother.1]
    exact hother.2
  widths bucket hbucket other hother := by
    rw [hsame bucket hbucket, hsame other hother]
    exact h.widths bucket hbucket other hother
  nonempty hn bucket hbucket := by
    rw [hsame bucket hbucket]
    exact h.nonempty hn bucket hbucket

/-! ## In words of 64 bits -/

/-- The range of a bucket as it is computed in words of 64 bits. -/
def wordBounds (n buckets : UInt64) (bucket : ℕ) : ℕ × ℕ :=
  let bounds := bucketBounds n buckets (.ofNat bucket)
  (bounds.1.toNat, bounds.2.toNat)

theorem wordBounds_eq {n buckets : UInt64} {bucket : ℕ} (hbucket : bucket < buckets.toNat) :
    wordBounds n buckets bucket = (bucket * n.toNat % 2 ^ 64 / buckets.toNat,
      (bucket + 1) * n.toNat % 2 ^ 64 / buckets.toNat) := by
  have hword : (UInt64.ofNat bucket).toNat = bucket :=
    UInt64.toNat_ofNat_of_lt (hbucket.trans buckets.toNat_lt)
  have hnext : (UInt64.ofNat bucket + 1).toNat = bucket + 1 := by
    rw [UInt64.toNat_add, hword]
    exact Nat.mod_eq_of_lt (Nat.lt_of_le_of_lt hbucket buckets.toNat_lt)
  unfold wordBounds bucketBounds
  dsimp only
  rw [UInt64.toNat_div, UInt64.toNat_div, UInt64.toNat_mul, UInt64.toNat_mul, hnext, hword]

/-- The last product is the largest, so if that fits a word all of them do. -/
theorem products_fit_iff {n buckets : UInt64} (hpos : 0 < buckets.toNat) :
    (∀ bucket < buckets.toNat, (bucket + 1) * n.toNat < 2 ^ 64)
      ↔ buckets.toNat * n.toNat < 2 ^ 64 := by
  constructor
  · intro h
    have hlast := h (buckets.toNat - 1) (Nat.sub_lt hpos Nat.one_pos)
    rwa [Nat.sub_add_cancel hpos] at hlast
  · intro h bucket hbucket
    exact (Nat.mul_le_mul_right n.toNat hbucket).trans_lt h

/-- If the ranges computed in words tile, the last product was not cut off: its quotient would be
below `n`. -/
theorem fits_of_tiles {n buckets : UInt64} (hpos : 0 < buckets.toNat)
    (h : Tiles n.toNat buckets.toNat (wordBounds n buckets)) :
    buckets.toNat * n.toNat < 2 ^ 64 := by
  have hstop := h.stops
  rw [wordBounds_eq (Nat.sub_lt hpos Nat.one_pos)] at hstop
  dsimp only at hstop
  rw [Nat.sub_add_cancel hpos] at hstop
  calc buckets.toNat * n.toNat
      = buckets.toNat * (buckets.toNat * n.toNat % 2 ^ 64 / buckets.toNat) := by rw [hstop]
    _ ≤ buckets.toNat * n.toNat % 2 ^ 64 := Nat.mul_div_le _ _
    _ < 2 ^ 64 := Nat.mod_lt _ (by decide)

/-- Computed in words of 64 bits the ranges of the buckets tile the indices exactly if none of the
products on the way is larger than a word, and then they are those of the natural numbers. For
fewer buckets than samples, as thinning out makes them, none is for up to `2 ^ 32` samples. -/
theorem bucketBounds_tile {n buckets : UInt64} (hpos : 1 ≤ buckets) :
    (Tiles n.toNat buckets.toNat (wordBounds n buckets) ↔ buckets.toNat * n.toNat < 2 ^ 64)
      ∧ ((∀ bucket < buckets.toNat, (bucket + 1) * n.toNat < 2 ^ 64)
        ↔ buckets.toNat * n.toNat < 2 ^ 64)
      ∧ (buckets.toNat * n.toNat < 2 ^ 64 → ∀ bucket < buckets.toNat,
        wordBounds n buckets bucket = bucketBounds n.toNat buckets.toNat bucket)
      ∧ (buckets < n → n.toNat ≤ 2 ^ 32 → buckets.toNat * n.toNat < 2 ^ 64) := by
  have hpos : 0 < buckets.toNat := UInt64.le_iff_toNat_le.mp hpos
  have hsame : buckets.toNat * n.toNat < 2 ^ 64 → ∀ bucket < buckets.toNat,
      wordBounds n buckets bucket = bucketBounds n.toNat buckets.toNat bucket := by
    intro hfits bucket hbucket
    have hstop := (products_fit_iff hpos).mpr hfits bucket hbucket
    have hstart : bucket * n.toNat < 2 ^ 64 :=
      (Nat.mul_le_mul_right n.toNat bucket.le_succ).trans_lt hstop
    rw [wordBounds_eq hbucket, Nat.mod_eq_of_lt hstart, Nat.mod_eq_of_lt hstop]
    rfl
  refine ⟨⟨fits_of_tiles hpos, fun hfits => ?_⟩, products_fit_iff hpos, hsame, fun hfewer hn => ?_⟩
  · exact (tiles_bucketBounds n.toNat hpos).congr hpos (hsame hfits)
  · have hfewer : buckets.toNat < n.toNat := UInt64.lt_iff_toNat_lt.mp hfewer
    calc buckets.toNat * n.toNat
        < n.toNat * n.toNat := Nat.mul_lt_mul_of_pos_right hfewer (hpos.trans hfewer)
      _ ≤ 2 ^ 32 * 2 ^ 32 := Nat.mul_le_mul hn hn
      _ = 2 ^ 64 := (pow_add 2 32 32).symm

/-- Of seven indices two buckets have two and the last has three. -/
theorem bucketBounds_tile_remainder :
    (1 : UInt64) ≤ 3 ∧ (List.range 3).map (wordBounds 7 3) = [(0, 2), (2, 4), (4, 7)]
      ∧ (∃! bucket, bucket < 3 ∧ (wordBounds 7 3 bucket).1 ≤ 4 ∧ 4 < (wordBounds 7 3 bucket).2)
      ∧ ∀ bucket < 3, (wordBounds 7 3 bucket).1 < (wordBounds 7 3 bucket).2 := by
  have hpos : (1 : UInt64) ≤ 3 := by decide
  obtain ⟨htiles, -⟩ := @bucketBounds_tile 7 3 hpos
  have h : Tiles 7 3 (wordBounds 7 3) := htiles.mpr (by decide)
  exact ⟨hpos, by decide, h.covers 4 (by decide), h.nonempty (by decide)⟩

/-- With as many buckets as half of all words no range goes beyond the first index, so the last of
three indices stands in none. -/
theorem bucketBounds_overflow :
    let half : UInt64 := 9223372036854775808
    1 ≤ half ∧ (∀ bucket : UInt64, ¬ 2 < (bucketBounds 3 half bucket).2)
      ∧ ¬ Tiles 3 half.toNat (wordBounds 3 half) := by
  intro half
  refine ⟨by decide, fun bucket h => ?_, fun h => ?_⟩
  · have hhalf : half.toNat = 2 ^ 63 := by decide +kernel
    have hquotient : ((bucket + 1) * 3 / half).toNat = ((bucket + 1) * 3).toNat / 2 ^ 63 :=
      (UInt64.toNat_div _ _).trans (by rw [hhalf])
    have hproduct : ((bucket + 1) * 3).toNat < 2 ^ 64 := UInt64.toNat_lt _
    have hlt : 2 < ((bucket + 1) * 3 / half).toNat := UInt64.lt_iff_toNat_lt.mp h
    omega
  · exact absurd (@fits_of_tiles 3 half (by decide +kernel) h) (by decide +kernel)

end Ranges

end SeriesQuery.Thinning
