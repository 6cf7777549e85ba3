import SeriesQuery.Proofs.Binary64.Arithmetic
import SeriesQuery.Slicer

/-!
# One reading of a slice

A reading fixes a time to stop at and takes from the front of each list the samples up to it, one
list after the other. What the slice keeps of them depends only on the samples taken, in the order
in which they were: the last of each key. When to stop depends only on the samples at the front
of the lists.
-/

namespace SeriesQuery

/-- A sample that is not after a time. -/
def Sample.isUpTo (stop : Float) (s : Sample) : Bool := s.time ≤ stop

@[simp] theorem Sample.isUpTo_iff {stop : Float} {s : Sample} :
    s.isUpTo stop = true ↔ s.time ≤ stop :=
  decide_eq_true_iff

theorem Sample.not_le_of_dropWhile {stop : Float} {l k : List Sample} {x : Sample}
    (h : l.dropWhile (·.isUpTo stop) = x :: k) : ¬ x.time ≤ stop := by
  have hhead := List.head?_dropWhile_not (·.isUpTo stop) l
  rw [h] at hhead
  exact mt Sample.isUpTo_iff.mpr (Bool.eq_false_iff.mp hhead)

theorem Sample.le_of_mem_takeWhile {stop : Float} {l : List Sample} {x : Sample}
    (h : x ∈ l.takeWhile (·.isUpTo stop)) : x.time ≤ stop :=
  Sample.isUpTo_iff.mp (List.all_eq_true.mp List.all_takeWhile x h)

namespace Slicer

/-! ## What is taken, and what is left -/

/-- The samples that a reading takes, in the order in which it takes them. -/
def taken (stop : Float) (inputs : List (List Sample)) : List Sample :=
  inputs.flatMap (·.takeWhile (·.isUpTo stop))

/-- What a reading leaves of each list. -/
def left (stop : Float) (inputs : List (List Sample)) : List (List Sample) :=
  inputs.map (·.dropWhile (·.isUpTo stop))

/-- A slice with more samples, each in the place of one with the same key. -/
def collapse (slice samples : List Sample) : List Sample :=
  samples.foldl (fun slice s => keepLast s slice) slice

theorem drain_eq (stop : Float) (slice l : List Sample) : drain stop slice l
    = (collapse slice (l.takeWhile (·.isUpTo stop)), l.dropWhile (·.isUpTo stop)) := by
  induction l generalizing slice with
  | nil => rfl
  | cons s rest ih =>
      unfold drain
      by_cases h : s.time ≤ stop
      · have hp : s.isUpTo stop = true := Sample.isUpTo_iff.mpr h
        rw [if_pos h, ih, List.takeWhile_cons_of_pos hp, List.dropWhile_cons_of_pos hp]
        rfl
      · have hp : ¬ s.isUpTo stop = true := mt Sample.isUpTo_iff.mp h
        rw [if_neg h, List.takeWhile_cons_of_neg hp, List.dropWhile_cons_of_neg hp]
        rfl

theorem sweep_drain (stop : Float) (slice : List Sample) (inputs : List (List Sample)) :
    sweep (drain stop) slice inputs = (collapse slice (taken stop inputs), left stop inputs) := by
  induction inputs generalizing slice with
  | nil => rfl
  | cons l inputs ih =>
      have hsplit : collapse (collapse slice (l.takeWhile (·.isUpTo stop))) (taken stop inputs)
          = collapse slice (taken stop (l :: inputs)) :=
        (List.foldl_append (f := fun slice s => keepLast s slice)).symm
      rw [sweep, drain_eq]
      dsimp only
      rw [ih, hsplit]
      rfl

theorem next_of_finite {s : Slicer} (h : (firstTime s.inputs).isFinite = true) :
    s.next true = (collapse [] (taken (firstTime s.inputs + s.tolerance) s.inputs),
      { s with inputs := nonempty (left (firstTime s.inputs + s.tolerance) s.inputs) }) := by
  unfold next
  dsimp only
  rw [if_pos h, if_pos rfl, sweep_drain]

theorem next_of_not_finite {s : Slicer} {keepLastOfKey : Bool}
    (h : ¬ (firstTime s.inputs).isFinite = true) :
    s.next keepLastOfKey = ([], { s with inputs := [] }) := by
  unfold next
  dsimp only
  rw [if_neg h]

/-- Taking and leaving shares out the samples of all lists. -/
theorem taken_left_perm (stop : Float) (inputs : List (List Sample)) :
    (taken stop inputs ++ (left stop inputs).flatten).Perm inputs.flatten := by
  induction inputs with
  | nil => exact .nil
  | cons l inputs ih =>
      have hl : l.takeWhile (·.isUpTo stop) ++ l.dropWhile (·.isUpTo stop) = l :=
        List.takeWhile_append_dropWhile
      have hcons : taken stop (l :: inputs) ++ (left stop (l :: inputs)).flatten
          = l.takeWhile (·.isUpTo stop) ++ (taken stop inputs
            ++ (l.dropWhile (·.isUpTo stop) ++ (left stop inputs).flatten)) := by
        rw [← List.append_assoc]
        rfl
      have hswap : (taken stop inputs ++ (l.dropWhile (·.isUpTo stop)
          ++ (left stop inputs).flatten)).Perm (l.dropWhile (·.isUpTo stop) ++ inputs.flatten) :=
        (List.perm_append_comm_assoc _ _ _).trans (ih.append_left _)
      rw [hcons, List.flatten_cons]
      refine (hswap.append_left _).trans (.of_eq ?_)
      rw [← List.append_assoc, hl]

/-- What is taken before and after a sample includes what is taken of its own list. -/
theorem taken_split {stop : Float} {inputs : List (List Sample)} {before after : List Sample}
    {x : Sample} (h : taken stop inputs = before ++ x :: after) :
    ∃ l ∈ inputs, ∃ front back, l.takeWhile (·.isUpTo stop) = front ++ x :: back
      ∧ back ⊆ after := by
  induction inputs generalizing before with
  | nil =>
      have hnone : x ∈ taken stop [] := by
        rw [h]
        exact List.mem_append_right _ List.mem_cons_self
      cases hnone
  | cons l inputs ih =>
      have hcons : l.takeWhile (·.isUpTo stop) ++ taken stop inputs = before ++ x :: after := h
      have hlater : (∃ before', taken stop inputs = before' ++ x :: after) →
          ∃ k ∈ l :: inputs, ∃ front back, k.takeWhile (·.isUpTo stop) = front ++ x :: back
            ∧ back ⊆ after := by
        rintro ⟨before', hb⟩
        obtain ⟨k, hk, hsplit⟩ := ih hb
        exact ⟨k, List.mem_cons_of_mem _ hk, hsplit⟩
      rcases List.append_eq_append_iff.mp hcons with ⟨zs, -, hz⟩ | ⟨zs, hf, hz⟩
      · exact hlater ⟨zs, hz⟩
      · cases zs with
        | nil => exact hlater ⟨[], hz.symm⟩
        | cons z zs =>
            obtain ⟨rfl, rfl⟩ := List.cons.inj hz
            exact ⟨l, List.mem_cons_self, before, zs, hf, List.subset_append_left zs _⟩

theorem flatten_nonempty (inputs : List (List Sample)) :
    (nonempty inputs).flatten = inputs.flatten := by
  induction inputs with
  | nil => rfl
  | cons l inputs ih =>
      unfold nonempty at ih ⊢
      cases l with
      | nil => exact ih
      | cons s rest =>
          rw [List.filter_cons_of_pos rfl, List.flatten_cons, List.flatten_cons, ih]

theorem mem_nonempty {inputs : List (List Sample)} {l : List Sample} :
    l ∈ nonempty inputs ↔ l ∈ inputs ∧ l ≠ [] := by
  unfold nonempty
  rw [List.mem_filter, Bool.not_eq_true', List.isEmpty_eq_false_iff]

/-! ## The last of each key -/

/-- Of each key of the samples taken, the slice holds the last one. -/
structure LastOfEachKey (slice taken : List Sample) : Prop where
  /-- No two samples of the slice have the same key. -/
  nodup : (slice.map (·.key)).Nodup
  /-- No key is missing. -/
  complete : ∀ s ∈ taken, ∃ t ∈ slice, t.key = s.key
  /-- What is held was taken, and none of the same key after it. -/
  last : ∀ t ∈ slice, ∃ before after, taken = before ++ t :: after ∧ ∀ s ∈ after, s.key ≠ t.key

theorem mem_keepLast {s t : Sample} {slice : List Sample} (h : t ∈ keepLast s slice) :
    t = s ∨ t ∈ slice := by
  induction slice with
  | nil => exact .inl (List.mem_singleton.mp h)
  | cons u rest ih =>
      unfold keepLast at h
      split at h
      · rcases List.mem_cons.mp h with h | h
        · exact .inl h
        · exact .inr (List.mem_cons_of_mem _ h)
      · rcases List.mem_cons.mp h with h | h
        · exact .inr (h ▸ List.mem_cons_self)
        · exact (ih h).imp id fun hr => List.mem_cons_of_mem _ hr

theorem key_mem_keepLast {s : Sample} {slice : List Sample} {key : Text} :
    key ∈ (keepLast s slice).map (·.key) ↔ key = s.key ∨ key ∈ slice.map (·.key) := by
  induction slice with
  | nil => simp [keepLast]
  | cons u rest ih =>
      unfold keepLast
      split
      · next h =>
          rw [List.map_cons, List.map_cons, List.mem_cons, List.mem_cons, eq_of_beq h]
          simp
      · rw [List.map_cons, List.map_cons, List.mem_cons, List.mem_cons, ih]
        exact or_left_comm

theorem nodup_keepLast {s : Sample} {slice : List Sample} (h : (slice.map (·.key)).Nodup) :
    ((keepLast s slice).map (·.key)).Nodup := by
  induction slice with
  | nil => simp [keepLast]
  | cons u rest ih =>
      rw [List.map_cons, List.nodup_cons] at h
      unfold keepLast
      split
      · next hk =>
          rw [List.map_cons, List.nodup_cons, ← eq_of_beq hk]
          exact h
      · next hk =>
          rw [List.map_cons, List.nodup_cons, key_mem_keepLast]
          refine ⟨fun hmem => ?_, ih h.2⟩
          rcases hmem with heq | hmem
          · exact hk (beq_iff_eq.mpr heq)
          · exact h.1 hmem

theorem key_ne_of_mem_keepLast {s t : Sample} {slice : List Sample}
    (hn : (slice.map (·.key)).Nodup) (h : t ∈ keepLast s slice) (hne : t ≠ s) : t.key ≠ s.key := by
  induction slice with
  | nil => exact absurd (List.mem_singleton.mp h) hne
  | cons u rest ih =>
      rw [List.map_cons, List.nodup_cons] at hn
      unfold keepLast at h
      split at h
      · next hk =>
          rcases List.mem_cons.mp h with h | h
          · exact absurd h hne
          · rw [← eq_of_beq hk]
            exact fun he => hn.1 (he ▸ List.mem_map_of_mem h)
      · next hk =>
          rcases List.mem_cons.mp h with h | h
          · rw [h]
            exact fun he => hk (beq_iff_eq.mpr he)
          · exact ih hn.2 h

theorem LastOfEachKey.keepLast {slice taken : List Sample} (h : LastOfEachKey slice taken)
    (s : Sample) : LastOfEachKey (keepLast s slice) (taken ++ [s]) where
  nodup := nodup_keepLast h.nodup
  complete := by
    intro t ht
    have hkey : t.key ∈ (Slicer.keepLast s slice).map (·.key) := by
      rw [key_mem_keepLast]
      rcases List.mem_append.mp ht with ht | ht
      · obtain ⟨u, hu, he⟩ := h.complete t ht
        exact .inr (he ▸ List.mem_map_of_mem hu)
      · exact .inl (by rw [List.mem_singleton.mp ht])
    obtain ⟨u, hu, he⟩ := List.mem_map.mp hkey
    exact ⟨u, hu, he⟩
  last := by
    intro t ht
    by_cases hts : t = s
    · exact ⟨taken, [], by rw [hts], fun u hu => by cases hu⟩
    · have hmem : t ∈ slice := (mem_keepLast ht).resolve_left hts
      obtain ⟨before, after, hsplit, hafter⟩ := h.last t hmem
      refine ⟨before, after ++ [s], by rw [hsplit]; simp, fun u hu => ?_⟩
      rcases List.mem_append.mp hu with hu | hu
      · exact hafter u hu
      · rw [List.mem_singleton.mp hu]
        exact (key_ne_of_mem_keepLast h.nodup ht hts).symm

/-- The slice of a reading holds the last of each key of what is taken. -/
theorem lastOfEachKey_collapse (taken : List Sample) :
    LastOfEachKey (collapse [] taken) taken := by
  have h : ∀ (rest slice before : List Sample), LastOfEachKey slice before →
      LastOfEachKey (collapse slice rest) (before ++ rest) := by
    intro rest
    induction rest with
    | nil =>
        intro slice before hb
        rwa [List.append_nil]
    | cons s rest ih =>
        intro slice before hb
        have hstep := ih _ _ (hb.keepLast s)
        rwa [List.append_assoc] at hstep
  exact h taken [] []
    { nodup := List.nodup_nil
      complete := fun s hs => by cases hs
      last := fun t ht => by cases ht }

theorem LastOfEachKey.subset {slice taken : List Sample} (h : LastOfEachKey slice taken) :
    slice ⊆ taken := by
  intro t ht
  obtain ⟨before, after, hsplit, -⟩ := h.last t ht
  rw [hsplit]
  exact List.mem_append_right _ List.mem_cons_self

theorem LastOfEachKey.mem {slice before after : List Sample} {x : Sample}
    (h : LastOfEachKey slice (before ++ x :: after)) (hafter : ∀ s ∈ after, s.key ≠ x.key) :
    x ∈ slice := by
  obtain ⟨t, ht, hkey⟩ := h.complete x (List.mem_append_right _ List.mem_cons_self)
  obtain ⟨before', after', hsplit, hlast⟩ := h.last t ht
  rcases List.append_eq_append_iff.mp hsplit with ⟨zs, -, hz⟩ | ⟨zs, -, hz⟩
  · cases zs with
    | nil => exact (List.cons.inj hz).1 ▸ ht
    | cons z zs =>
        obtain ⟨rfl, rfl⟩ := List.cons.inj hz
        exact absurd hkey (hafter t (List.mem_append_right _ List.mem_cons_self))
  · cases zs with
    | nil => exact (List.cons.inj hz).1 ▸ ht
    | cons z zs =>
        obtain ⟨rfl, rfl⟩ := List.cons.inj hz
        exact absurd hkey.symm (hlast x (List.mem_append_right _ List.mem_cons_self))

theorem LastOfEachKey.ne_nil {slice taken : List Sample} (h : LastOfEachKey slice taken)
    (hne : taken ≠ []) : slice ≠ [] := by
  rintro rfl
  obtain ⟨s, hs⟩ := List.exists_mem_of_ne_nil taken hne
  obtain ⟨t, ht, -⟩ := h.complete s hs
  cases ht

/-! ## When a reading starts -/

open Binary64

theorem earlier_spec {a b : Float} (ha : ¬ IsNaN a) :
    ¬ IsNaN (earlier a b) ∧ earlier a b ≤ a ∧ ¬ b < earlier a b
      ∧ (earlier a b = a ∨ earlier a b = b) := by
  unfold earlier
  split
  · next h =>
      have hb := (lt_iff.mp h).1
      exact ⟨hb, le_of_lt h, not_lt_of_le (le_refl_of_not_isNaN hb), .inr rfl⟩
  · next h => exact ⟨ha, le_refl_of_not_isNaN ha, h, .inl rfl⟩

theorem foldl_earlier_spec (times : List Float) {a : Float} (ha : ¬ IsNaN a) :
    ¬ IsNaN (times.foldl earlier a) ∧ times.foldl earlier a ≤ a
      ∧ (∀ t ∈ times, ¬ t < times.foldl earlier a)
      ∧ (times.foldl earlier a = a ∨ times.foldl earlier a ∈ times) := by
  induction times generalizing a with
  | nil => exact ⟨ha, le_refl_of_not_isNaN ha, (fun t ht => by cases ht), .inl rfl⟩
  | cons b times ih =>
      obtain ⟨hn, hle, hb, hmem⟩ := earlier_spec (b := b) ha
      obtain ⟨hn', hle', hall, hmem'⟩ := ih hn
      rw [List.foldl_cons]
      refine ⟨hn', le_trans hle' hle, fun t ht => ?_, ?_⟩
      · rcases List.mem_cons.mp ht with rfl | ht
        · exact fun hlt => hb (lt_of_lt_of_le hlt hle')
        · exact hall t ht
      · rcases hmem' with he | hm
        · rw [he]
          refine hmem.imp id fun h => ?_
          rw [h]
          exact List.mem_cons_self
        · exact .inr (List.mem_cons_of_mem _ hm)

theorem firstTime_not_isNaN (inputs : List (List Sample)) : ¬ IsNaN (firstTime inputs) :=
  (foldl_earlier_spec _ positiveInfinity_not_isNaN).1

theorem firstTime_le_head {inputs : List (List Sample)} {l : List Sample} {s : Sample}
    (hl : s :: l ∈ inputs) : ¬ s.time < firstTime inputs := by
  obtain ⟨-, -, hall, -⟩ := foldl_earlier_spec
    (inputs.filterMap fun l => l.head?.map (·.time)) positiveInfinity_not_isNaN
  exact hall s.time (List.mem_filterMap.mpr ⟨s :: l, hl, rfl⟩)

/-- A reading starts at the front of a list, or nowhere. -/
theorem firstTime_mem (inputs : List (List Sample)) :
    firstTime inputs = positiveInfinity ∨ ∃ s l, s :: l ∈ inputs ∧ s.time = firstTime inputs := by
  obtain ⟨-, -, -, hmem⟩ := foldl_earlier_spec
    (inputs.filterMap fun l => l.head?.map (·.time)) positiveInfinity_not_isNaN
  refine hmem.imp id fun hm => ?_
  obtain ⟨l, hl, he⟩ := List.mem_filterMap.mp hm
  cases l with
  | nil => cases he
  | cons s l => exact ⟨s, l, hl, Option.some_inj.mp he⟩

/-- The sample that a reading starts with lies within the tolerance, if its time is finite. -/
theorem exists_front_isUpTo {inputs : List (List Sample)} {tolerance : Float}
    (ht : 0.0 ≤ tolerance) (h : (firstTime inputs).isFinite = true) :
    ∃ x l, x :: l ∈ inputs ∧ x.isUpTo (firstTime inputs + tolerance) = true := by
  rcases firstTime_mem inputs with hinf | ⟨x, l, hl, hx⟩
  · rw [hinf] at h
    exact absurd h (by decide)
  · exact ⟨x, l, hl, by
      rw [Sample.isUpTo_iff, hx]
      exact le_self_add h ht⟩

/-- Over lists of finite times that hold samples, a reading starts at the front of one of them. -/
theorem firstTime_of_finite {inputs : List (List Sample)} (hne : inputs ≠ [])
    (hnil : ∀ l ∈ inputs, l ≠ []) (hfinite : ∀ l ∈ inputs, ∀ x ∈ l, x.time.isFinite = true) :
    ∃ x l, x :: l ∈ inputs ∧ x.time = firstTime inputs := by
  refine (firstTime_mem inputs).resolve_left fun hinf => ?_
  obtain ⟨l, hl⟩ := List.exists_mem_of_ne_nil inputs hne
  cases l with
  | nil => exact hnil [] hl rfl
  | cons x l =>
      have hlt : x.time < positiveInfinity :=
        lt_infinity_of_isFinite (hfinite _ hl x List.mem_cons_self)
      exact firstTime_le_head hl (hinf ▸ hlt)

theorem ofInputs_tolerance_nonneg (tolerance : Float) (inputs : List (List Sample)) :
    0.0 ≤ (ofInputs tolerance inputs).tolerance := by
  unfold ofInputs
  dsimp only
  split
  · next h => exact le_of_lt h
  · decide

end Slicer

end SeriesQuery
