import Mathlib.Data.List.Sublists
import SeriesQuery.Evaluation.Apply
import SeriesQuery.Proofs.Binary64.Spread
import SeriesQuery.Proofs.SliceOrder

/-!
# What functions do to order

Most functions follow the samples they are applied to: what they yield has the times of some of
these samples, in their order, and the keys of some of them. A function that reduces yields at most
one sample. The exceptions are those that rank samples, by value or by chance, and the last
samples of a list, which come newest first.
-/

namespace SeriesQuery

/-- What a computation gives, if it gives anything, is as said. -/
def Gives {α : Type} (post : α → Prop) (x : Except Fault α) : Prop := ∀ a, x = .ok a → post a

namespace Gives

variable {α β : Type} {post : α → Prop}

theorem error (f : Fault) : Gives post (.error f) := by
  intro a h
  cases h

theorem ok {a : α} (h : post a) : Gives post (.ok a) := by
  intro b hb
  cases hb
  exact h

theorem bind {x : Except Fault β} {k : β → Except Fault α}
    (h : ∀ b, x = .ok b → Gives post (k b)) : Gives post (x >>= k) := by
  intro a ha
  cases hx : x with
  | error f =>
      rw [hx] at ha
      cases ha
  | ok b =>
      rw [hx] at ha
      exact h b hx a ha

end Gives

/-! ## Following -/

/-- Samples that have the times of some of the others in their order, and keys of some of them in
their order. -/
structure Follows (out samples : List Sample) : Prop where
  /-- The times. -/
  times : (out.map (·.time)).Sublist (samples.map (·.time))
  /-- The keys. -/
  keys : (out.map (·.key)).Sublist (samples.map (·.key))

namespace Follows

variable {out samples : List Sample}

theorem of_sublist (h : out.Sublist samples) : Follows out samples :=
  ⟨h.map _, h.map _⟩

theorem of_maps (ht : out.map (·.time) = samples.map (·.time))
    (hk : out.map (·.key) = samples.map (·.key)) : Follows out samples := by
  constructor
  · rw [ht]
  · rw [hk]

theorem of_stamp {o : Option Sample}
    (h : ∀ y ∈ o, ∃ x ∈ samples, x.time = y.time ∧ x.key = y.key) : Follows o.toList samples := by
  cases o with
  | none => exact ⟨List.nil_sublist _, List.nil_sublist _⟩
  | some y =>
      obtain ⟨x, hx, ht, hk⟩ := h y rfl
      have hx : [x].Sublist samples := List.singleton_sublist.mpr hx
      constructor
      · rw [Option.toList_some, List.map_singleton, ← ht]
        exact hx.map _
      · rw [Option.toList_some, List.map_singleton, ← hk]
        exact hx.map _

theorem inOrder (h : Follows out samples) (ho : InOrder samples) : InOrder out := by
  have ho : (samples.map (·.time)).Pairwise fun a b => ¬ b < a := List.pairwise_map.mpr ho
  exact List.pairwise_map.mp (ho.sublist h.times)

end Follows

/-! ## Functions of each sample -/

theorem follows_withBits (f : Sample → UInt64) (samples : List Sample) :
    Follows (samples.map fun s => s.withBits (f s)) samples := by
  refine .of_maps ?_ ?_
  · rw [List.map_map]
    rfl
  · rw [List.map_map]
    rfl

theorem follows_mapValues (f : Float → Float) (samples : List Sample) :
    Follows (mapValues f samples) samples :=
  follows_withBits (fun s => (f s.value).toBits) samples

theorem times_pairwise (f : Sample → Sample → Float) (previous : Sample) (samples : List Sample) :
    (pairwise f previous samples).map (·.time) = samples.map (·.time) := by
  induction samples generalizing previous with
  | nil => rfl
  | cons s rest ih =>
      rw [pairwise, List.map_cons, List.map_cons, ih]
      rfl

theorem keys_pairwise (f : Sample → Sample → Float) (previous : Sample) (samples : List Sample) :
    ((pairwise f previous samples).map (·.key)).Sublist
      ((previous :: samples).map (·.key)) := by
  induction samples generalizing previous with
  | nil => exact List.nil_sublist _
  | cons s rest ih => exact (ih s).cons_cons _

theorem follows_lookback (f : Sample → Sample → Float) (samples : List Sample) :
    Follows (lookback f samples) samples := by
  cases samples with
  | nil => exact .of_sublist (List.Sublist.refl _)
  | cons s rest =>
      refine ⟨?_, keys_pairwise f s rest⟩
      rw [lookback, times_pairwise]
      exact List.sublist_cons_self _ _

theorem follows_zipWith (samples : List Sample) (values : List Float) :
    Follows (List.zipWith Sample.withValue samples values) samples := by
  induction samples generalizing values with
  | nil => exact .of_sublist (List.Sublist.refl _)
  | cons s rest ih =>
      cases values with
      | nil => exact ⟨List.nil_sublist _, List.nil_sublist _⟩
      | cons v values => exact ⟨(ih values).times.cons_cons _, (ih values).keys.cons_cons _⟩

/-! ## Choices -/

theorem distinctFrom_sublist (seen : List UInt64) (samples : List Sample) :
    (Choice.distinctFrom seen samples).Sublist samples := by
  induction samples generalizing seen with
  | nil => exact List.Sublist.refl _
  | cons s rest ih =>
      unfold Choice.distinctFrom
      split
      · exact (ih _).cons _
      · exact (ih _).cons_cons _

theorem spacedAfter_sublist (span last : Float) (samples : List Sample) :
    (Choice.spacedAfter span last samples).Sublist samples := by
  induction samples generalizing last with
  | nil => exact List.Sublist.refl _
  | cons s rest ih =>
      unfold Choice.spacedAfter
      split
      · exact (ih _).cons _
      · exact (ih _).cons_cons _

theorem spaced_sublist (span : Float) (samples : List Sample) :
    (Choice.spaced span samples).Sublist samples := by
  cases samples with
  | nil => exact List.Sublist.refl _
  | cons s rest => exact (spacedAfter_sublist span s.time rest).cons_cons _

theorem last_sublist {samples : List Sample} {count : ℕ} (h : count ≤ 1) :
    (Choice.last samples count).Sublist samples := by
  have hlen : (Choice.last samples count).length ≤ 1 :=
    (List.length_take_le _ _).trans h
  have hsub : Choice.last samples count ⊆ samples := fun x hx =>
    List.mem_reverse.mp ((List.take_sublist _ _).subset hx)
  match hlast : Choice.last samples count with
  | [] => exact List.nil_sublist _
  | [x] => exact List.singleton_sublist.mpr (hsub (hlast ▸ List.mem_cons_self))
  | x :: y :: rest =>
      rw [hlast, List.length_cons, List.length_cons] at hlen
      omega

/-! ## Reductions -/

namespace Reduction

/-- At most one sample, with the time and key of one of the others. -/
def Stamps (o : Option Sample) (samples : List Sample) : Prop :=
  ∀ y ∈ o, ∃ x ∈ samples, x.time = y.time ∧ x.key = y.key

variable {samples : List Sample}

theorem stamps_of_mem {o : Option Sample} (h : ∀ y ∈ o, y ∈ samples) : Stamps o samples :=
  fun y hy => ⟨y, h y hy, rfl, rfl⟩

theorem stamps_withBits {o : Option Sample} {bits : Sample → UInt64} (h : ∀ y ∈ o, y ∈ samples) :
    Stamps (o.map fun s => s.withBits (bits s)) samples := by
  intro y hy
  obtain ⟨x, hx, rfl⟩ := Option.mem_map.mp hy
  exact ⟨x, h x hx, rfl, rfl⟩

theorem stamps_withValue {o : Option Sample} {value : Sample → Float}
    (h : ∀ y ∈ o, y ∈ samples) : Stamps (o.map fun s => s.withValue (value s)) samples :=
  stamps_withBits h

theorem stamps_stampLast (samples : List Sample) (value : Float) :
    Stamps (stampLast samples value) samples :=
  stamps_withValue fun _ hy => List.mem_of_mem_getLast? hy

theorem mem_of_mem_dated {x : Sample} (h : x ∈ dated samples) : x ∈ samples :=
  List.mem_of_mem_filter h

theorem mem_foldl_keepBetter (better : Float → Float → Bool) {l : List Sample}
    {best : Option Sample} (hl : l ⊆ samples) (hb : ∀ y ∈ best, y ∈ samples) :
    ∀ y ∈ l.foldl (keepBetter better) best, y ∈ samples := by
  induction l generalizing best with
  | nil => exact hb
  | cons s rest ih =>
      have hs := hl List.mem_cons_self
      refine ih (fun x hx => hl (List.mem_cons_of_mem _ hx)) fun y hy => ?_
      cases best with
      | none =>
          cases hy
          exact hs
      | some b =>
          unfold keepBetter at hy
          dsimp only at hy
          split at hy
          · cases hy
            exact hs
          · exact hb y hy

theorem high_mem_foldl_add {l : List Sample} {extent : Option Extent} (hl : l ⊆ samples)
    (he : ∀ e ∈ extent, e.high ∈ samples) : ∀ e ∈ l.foldl Extent.add extent, e.high ∈ samples := by
  induction l generalizing extent with
  | nil => exact he
  | cons s rest ih =>
      have hs := hl List.mem_cons_self
      refine ih (fun x hx => hl (List.mem_cons_of_mem _ hx)) fun e hmem => ?_
      cases extent with
      | none =>
          cases hmem
          exact hs
      | some e' =>
          cases hmem
          dsimp only
          split
          · exact hs
          · exact he e' rfl

theorem stamps_range (samples : List Sample) : Stamps (range samples) samples := by
  intro y hy
  obtain ⟨e, he, rfl⟩ := Option.mem_map.mp hy
  have hhigh : e.high ∈ samples :=
    high_mem_foldl_add (fun _ hx => mem_of_mem_dated hx) (fun e he => by cases he) e he
  exact ⟨e.high, hhigh, rfl, rfl⟩

theorem stamps_minimum (samples : List Sample) : Stamps (minimum samples) samples :=
  stamps_of_mem (mem_foldl_keepBetter _ (fun _ hx => mem_of_mem_dated hx)
    fun _ hy => by cases hy)

theorem stamps_maximum (samples : List Sample) : Stamps (maximum samples) samples :=
  stamps_of_mem (mem_foldl_keepBetter _ (fun _ hx => mem_of_mem_dated hx)
    fun _ hy => by cases hy)

theorem mem_of_getElem?_sortedUp {i : ℕ} {y : Sample} (h : (sortedUp samples)[i]? = some y) :
    y ∈ samples :=
  mem_sorted.mp (List.mem_of_getElem? h)

theorem stamps_median (samples : List Sample) : Stamps (median samples) samples := by
  unfold median
  dsimp only
  split
  · exact stamps_of_mem fun y hy => mem_of_getElem?_sortedUp hy
  · split
    · next lower upper _ hu =>
        intro y hy
        cases hy
        exact ⟨upper, mem_of_getElem?_sortedUp hu, rfl, rfl⟩
    · intro y hy
      cases hy

theorem stamps_percentile (percent : Float) (samples : List Sample) :
    Stamps (percentile percent samples) samples := by
  unfold percentile
  dsimp only
  split
  · exact stamps_of_mem fun y hy => mem_sorted.mp (List.mem_of_mem_head? hy)
  · split
    · exact stamps_of_mem fun y hy => mem_sorted.mp (List.mem_of_mem_getLast? hy)
    · split
      · next lower upper _ hu =>
          intro y hy
          cases hy
          exact ⟨upper, mem_of_getElem?_sortedUp hu, rfl, rfl⟩
      · intro y hy
        cases hy

theorem stamps_mode (samples : List Sample) : Stamps (mode samples) samples := by
  cases samples with
  | nil => exact fun y hy => by cases hy
  | cons s rest =>
      rw [mode]
      exact stamps_withBits fun _ hy => List.mem_of_mem_getLast? hy

theorem stamps_timeIntegration (unitSeconds : Float) (samples : List Sample) :
    Stamps (timeIntegration unitSeconds samples) samples := by
  cases samples with
  | nil => exact fun y hy => by cases hy
  | cons s rest => exact stamps_stampLast _ _

end Reduction

/-! ## Ranking -/

theorem times_retime_inOrder {base last count : Float} (hlast : ¬ last < base)
    (hcount : 0 < Binary64.value count) (chosen : List Sample) :
    InOrder (Choice.retime base ((last - base) / count) chosen) := by
  unfold Choice.retime
  refine List.pairwise_map.mpr ?_
  have hplaces : (chosen.zipIdx).Pairwise fun a b => a.2 < b.2 := by
    refine List.pairwise_map.mp ?_
    rw [List.zipIdx_map_snd]
    exact List.pairwise_lt_range'
  exact hplaces.imp fun hab => Binary64.not_spread_lt hlast hcount hab.le

theorem last_not_lt_head {samples : List Sample} (h : InOrder samples) {head tail : Sample}
    (hhead : samples.head? = some head) (htail : samples.getLast? = some tail) :
    ¬ tail.time < head.time := by
  cases samples with
  | nil => cases hhead
  | cons x rest =>
      cases hhead
      rcases List.mem_cons.mp (List.mem_of_mem_getLast? htail) with rfl | hmem
      · exact fun hlt => lt_irrefl _ (Binary64.lt_iff.mp hlt).2.2
      · exact (List.pairwise_cons.mp h).1 tail hmem

/-- Normalised, what is taken of samples in order is in order, whatever it is. -/
theorem inOrder_take {samples : List Sample} (h : InOrder samples) (ordered : List Sample)
    (count : ℕ) : InOrder (Choice.take samples ordered count true) := by
  unfold Choice.take
  dsimp only
  split
  · next head tail hhead htail =>
      rw [if_pos rfl]
      exact times_retime_inOrder (last_not_lt_head h hhead htail)
        (Binary64.value_ofNat_pos (by omega)) _
  · exact .nil

theorem length_take_le (samples ordered : List Sample) (count : ℕ) (normalize : Bool) :
    (Choice.take samples ordered count normalize).length ≤ count := by
  unfold Choice.take
  dsimp only
  split
  · split
    · rw [Choice.retime, List.length_map, List.length_zipIdx]
      exact (List.length_take_le _ _).trans (min_le_left _ _)
    · exact (List.length_take_le _ _).trans (min_le_left _ _)
  · exact Nat.zero_le _

theorem take_subperm {samples ordered : List Sample} (h : ordered.Perm samples) (count : ℕ) :
    (Choice.take samples ordered count false).Subperm samples := by
  unfold Choice.take
  dsimp only
  split
  · rw [if_neg Bool.false_ne_true]
    exact (List.take_sublist _ _).subperm.trans h.subperm
  · exact List.nil_subperm

/-- A single sample that is taken keeps its time, or gets the one of the first sample. -/
theorem mem_take_of_le_one {samples ordered : List Sample} (h : ordered.Perm samples) {count : ℕ}
    (hcount : count ≤ 1) {normalize : Bool} {y : Sample}
    (hy : y ∈ Choice.take samples ordered count normalize) :
    ∃ x ∈ samples, x.key = y.key ∧ ∃ z ∈ samples,
      Binary64.IsNaN y.time ∨ Binary64.value y.time = Binary64.value z.time := by
  unfold Choice.take at hy
  dsimp only at hy
  split at hy
  · next head tail hhead htail =>
      split at hy
      · obtain ⟨⟨x, i⟩, hx, rfl⟩ := List.mem_map.mp hy
        obtain ⟨-, hlt, hxi⟩ := List.mem_zipIdx hx
        have hlen : (ordered.take (min count ordered.length)).length ≤ 1 :=
          (List.length_take_le _ _).trans ((min_le_left _ _).trans hcount)
        have hmem : x ∈ ordered := by
          rw [hxi]
          exact (List.take_sublist _ _).subset (List.getElem_mem _)
        obtain rfl : i = 0 := by omega
        exact ⟨x, h.subset hmem, rfl, head, List.mem_of_mem_head? hhead,
          Binary64.spread_zero head.time _⟩
      · have hmem := h.subset ((List.take_sublist _ _).subset hy)
        exact ⟨y, hmem, rfl, y, hmem, .inr rfl⟩
  · cases hy

theorem exists_key_of_mem_take {samples ordered : List Sample} {count : ℕ} {normalize : Bool}
    {y : Sample} (hy : y ∈ Choice.take samples ordered count normalize) :
    ∃ x ∈ ordered, x.key = y.key := by
  unfold Choice.take at hy
  dsimp only at hy
  split at hy
  · split at hy
    · obtain ⟨⟨x, i⟩, hx, rfl⟩ := List.mem_map.mp hy
      exact ⟨x, (List.take_sublist _ _).subset (List.fst_mem_of_mem_zipIdx hx), rfl⟩
    · exact ⟨y, (List.take_sublist _ _).subset hy, rfl⟩
  · cases hy

/-! ## Applying a function -/

namespace Operator

/-- Whether a function ranks samples, by their values or by chance. -/
def ranks : Operator → Bool
  | top | bottom | random => true
  | _ => false

/-- A choice that comes to at most one sample, whatever the samples are. -/
def ChoosesOne (f : Operator) (parameters : List Text) : Prop :=
  match f with
  | .first | .last => ∀ scope samples, Gives (· ≤ 1)
      (Parameter.optional (Parameter.count scope samples) parameters 0 1)
  | .top | .bottom | .random => ∀ scope samples, Gives (·.1 ≤ 1)
      (ranking f parameters scope samples)
  | _ => False

/-- A ranking spreads its samples evenly. -/
def Spreads (parameters : List Text) : Prop :=
  Gives (· = true) (Parameter.optional Parameter.flag parameters 1 true)

/-- A ranking leaves the times of its samples. -/
def KeepsTimes (parameters : List Text) : Prop :=
  Gives (· = false) (Parameter.optional Parameter.flag parameters 1 true)

variable {f : Operator} {parameters : List Text} {scope : Scope} {samples : List Sample}

theorem gives_flag : Gives (fun p => Parameter.optional Parameter.flag parameters 1 true = .ok p.2)
    (ranking f parameters scope samples) :=
  .bind fun _ _ => .bind fun _ _ => .bind fun _ hb => .ok hb

/-- A function that does not rank follows the samples, unless it turns them around. -/
theorem apply_follows (hr : f.ranks = false) (hl : f = .last → f.ChoosesOne parameters) :
    Gives (Follows · samples) (f.apply parameters scope samples) := by
  cases f with
  | top | bottom | random => cases hr
  | average | total | count => exact .ok (.of_stamp (Reduction.stamps_stampLast _ _))
  | standardDeviation =>
      exact .bind fun drawn _ => .ok (.of_stamp (Reduction.stamps_stampLast _ _))
  | minimum => exact .ok (.of_stamp (Reduction.stamps_minimum _))
  | maximum => exact .ok (.of_stamp (Reduction.stamps_maximum _))
  | range => exact .ok (.of_stamp (Reduction.stamps_range _))
  | median => exact .ok (.of_stamp (Reduction.stamps_median _))
  | mode => exact .ok (.of_stamp (Reduction.stamps_mode _))
  | percentile =>
      refine .bind fun t _ => .bind fun percent _ => ?_
      split
      · exact .error _
      · exact .ok (.of_stamp (Reduction.stamps_percentile _ _))
  | timeIntegration =>
      exact .bind fun unit _ => .ok (.of_stamp (Reduction.stamps_timeIntegration _ _))
  | absoluteValue => exact .ok (follows_withBits _ _)
  | floor | ceiling | truncate => exact .ok (follows_mapValues _ _)
  | add | subtract | multiply | divide | round | wrapAngle =>
      exact .bind fun x _ => .ok (follows_mapValues _ _)
  | unwrapAngle => exact .bind fun unit _ => .ok (follows_zipWith _ _)
  | difference => exact .ok (follows_lookback _ _)
  | timeDifference | derivative => exact .bind fun unit _ => .ok (follows_lookback _ _)
  | distinct => exact .ok (.of_sublist (distinctFrom_sublist _ _))
  | interval =>
      exact .bind fun unit _ => .bind fun t _ => .bind fun span _ =>
        .ok (.of_sublist (spaced_sublist _ _))
  | includeRange | excludeRange | filterNaN =>
      exact .bind fun x _ => .ok (.of_sublist List.filter_sublist)
  | first => exact .bind fun size _ => .ok (.of_sublist (List.take_sublist _ _))
  | last =>
      exact .bind fun size hs => .ok (.of_sublist (last_sublist (hl rfl scope samples size hs)))
  | label => exact .ok (.of_sublist (List.Sublist.refl _))

/-! ## Applying a function to one list -/

/-- A function that hands samples on in order, if they are. -/
def KeepsOrder (f : Operator) (parameters : List Text) : Prop :=
  match f with
  | .last => f.ChoosesOne parameters
  | .top | .bottom | .random => f.ChoosesOne parameters ∨ Spreads parameters
  | _ => True

theorem inOrder_of_length_le_one {l : List Sample} (h : l.length ≤ 1) : InOrder l := by
  match l with
  | [] => exact .nil
  | [x] => exact List.pairwise_singleton _ _
  | x :: y :: rest =>
      rw [List.length_cons, List.length_cons] at h
      omega

theorem apply_length_le_one (h : f.isScalar = true ∨ f.ChoosesOne parameters) :
    Gives (·.length ≤ 1) (f.apply parameters scope samples) := by
  cases f with
  | top | bottom | random =>
      have h : ChoosesOne _ parameters := h.resolve_left Bool.false_ne_true
      exact .bind fun p hp => .ok ((length_take_le _ _ _ _).trans (h scope samples p hp))
  | first =>
      have h : ChoosesOne .first parameters := h.resolve_left Bool.false_ne_true
      exact .bind fun size hs => .ok ((List.length_take_le _ _).trans (h scope samples size hs))
  | last =>
      have h : ChoosesOne .last parameters := h.resolve_left Bool.false_ne_true
      exact .bind fun size hs => .ok ((List.length_take_le _ _).trans (h scope samples size hs))
  | average | minimum | maximum | total | range | count | median | mode =>
      exact .ok Option.length_toList_le
  | standardDeviation | timeIntegration =>
      exact .bind fun x _ => .ok Option.length_toList_le
  | percentile =>
      refine .bind fun t _ => .bind fun percent _ => ?_
      split
      · exact .error _
      · exact .ok Option.length_toList_le
  | distinct | absoluteValue | add | subtract | multiply | divide | round | floor | ceiling
  | truncate | difference | timeDifference | derivative | interval | includeRange | excludeRange
  | filterNaN | unwrapAngle | wrapAngle | label =>
      rcases h with h | h
      · cases h
      · cases h

theorem apply_inOrder (hf : f.KeepsOrder parameters) (h : InOrder samples) :
    Gives InOrder (f.apply parameters scope samples) := by
  by_cases hone : f.ChoosesOne parameters
  · exact fun out hout => inOrder_of_length_le_one (apply_length_le_one (.inr hone) out hout)
  · cases hr : f.ranks with
    | false =>
        have hl : f = .last → f.ChoosesOne parameters := by
          rintro rfl
          exact hf
        exact fun out hout => (apply_follows hr hl out hout).inOrder h
    | true =>
        have hspread : f.ChoosesOne parameters ∨ Spreads parameters := by
          cases f <;> first | exact hf | cases hr
        have hspread := hspread.resolve_left hone
        have htake : ∀ ordered, Gives InOrder (do
            let p ← ranking f parameters scope samples
            return Choice.take samples ordered p.1 p.2) := by
          refine fun ordered => .bind fun p hp => .ok ?_
          rw [hspread p.2 (gives_flag p hp)]
          exact inOrder_take h ordered p.1
        cases f <;> first | exact htake _ | cases hr

/-! ## Applying a function to slices -/

/-- A function that never hands on more of a key than it was given, nor other times. -/
def KeepsSlices (f : Operator) (parameters : List Text) : Prop :=
  match f with
  | .top | .bottom | .random => f.ChoosesOne parameters ∨ KeepsTimes parameters
  | _ => True

end Operator

/-- Samples with no more of each key than the others, and no other times, up to what is no
number. -/
structure StaysWithin (out samples : List Sample) : Prop where
  /-- The keys. -/
  keys : (out.map (·.key)).Subperm (samples.map (·.key))
  /-- The times. -/
  times : ∀ y ∈ out, ∃ x ∈ samples,
    Binary64.IsNaN y.time ∨ Binary64.value y.time = Binary64.value x.time

theorem StaysWithin.nodup {out samples : List Sample} (h : StaysWithin out samples)
    (hn : (samples.map (·.key)).Nodup) : (out.map (·.key)).Nodup := by
  obtain ⟨l, hp, hs⟩ := h.keys
  exact hp.nodup_iff.mp (hn.sublist hs)

theorem Follows.staysWithin {out samples : List Sample} (h : Follows out samples) :
    StaysWithin out samples where
  keys := h.keys.subperm
  times y hy := by
    obtain ⟨x, hx, ht⟩ := List.mem_map.mp (h.times.subset (List.mem_map_of_mem hy))
    exact ⟨x, hx, .inr (by rw [ht])⟩

theorem StaysWithin.of_subperm {out samples : List Sample} (h : out.Subperm samples) :
    StaysWithin out samples where
  keys := by
    obtain ⟨l, hp, hs⟩ := h
    exact ⟨l.map (·.key), hp.map _, hs.map _⟩
  times y hy := ⟨y, h.subset hy, .inr rfl⟩

theorem staysWithin_take_of_le_one {samples ordered : List Sample} (h : ordered.Perm samples)
    {count : ℕ} (hcount : count ≤ 1) (normalize : Bool) :
    StaysWithin (Choice.take samples ordered count normalize) samples where
  keys := by
    have hlen := (length_take_le samples ordered count normalize).trans hcount
    match hout : Choice.take samples ordered count normalize with
    | [] => exact List.nil_subperm
    | [y] =>
        obtain ⟨x, hx, hk, -⟩ := mem_take_of_le_one h hcount (hout ▸ List.mem_cons_self)
        rw [List.map_singleton, ← hk]
        exact (List.singleton_sublist.mpr (List.mem_map_of_mem hx)).subperm
    | y :: z :: rest =>
        rw [hout, List.length_cons, List.length_cons] at hlen
        omega
  times y hy := by
    obtain ⟨-, -, -, z, hz, ht⟩ := mem_take_of_le_one h hcount hy
    exact ⟨z, hz, ht⟩

namespace Operator

variable {f : Operator} {parameters : List Text} {scope : Scope} {samples : List Sample}

theorem apply_staysWithin (hf : f.KeepsSlices parameters)
    (hshuffle : (scope.shuffle samples).Perm samples) :
    Gives (StaysWithin · samples) (f.apply parameters scope samples) := by
  cases hr : f.ranks with
  | false =>
      by_cases hl : f = .last
      · rw [hl]
        exact .bind fun size _ => .ok (.of_subperm ((List.take_sublist _ _).subperm.trans
          (List.reverse_perm samples).subperm))
      · exact fun out hout => (apply_follows hr (fun h => absurd h hl) out hout).staysWithin
  | true =>
      have hkeeps : f.ChoosesOne parameters ∨ KeepsTimes parameters := by
        cases f <;> first | exact hf | cases hr
      have hone : f.ChoosesOne parameters →
          Gives (·.1 ≤ 1) (ranking f parameters scope samples) := by
        intro h
        cases f <;> first | exact h scope samples | cases hr
      have htake : ∀ ordered : List Sample, ordered.Perm samples → Gives (StaysWithin · samples) (do
          let p ← ranking f parameters scope samples
          return Choice.take samples ordered p.1 p.2) := by
        refine fun ordered hperm => .bind fun p hp => .ok ?_
        rcases hkeeps with h | h
        · exact staysWithin_take_of_le_one hperm (hone h p hp) p.2
        · rw [h p.2 (gives_flag p hp)]
          exact .of_subperm (take_subperm hperm p.1)
      cases f with
      | top => exact htake _ (sorted_perm _ _)
      | bottom => exact htake _ (sorted_perm _ _)
      | random => exact htake _ hshuffle
      | _ => cases hr

end Operator

/-! ## Keys -/

/-- Samples with keys of some of the others. -/
def KeysFrom (out samples : List Sample) : Prop := ∀ y ∈ out, ∃ x ∈ samples, x.key = y.key

theorem Follows.keysFrom {out samples : List Sample} (h : Follows out samples) :
    KeysFrom out samples := by
  intro y hy
  obtain ⟨x, hx, hk⟩ := List.mem_map.mp (h.keys.subset (List.mem_map_of_mem hy))
  exact ⟨x, hx, hk⟩

namespace Operator

variable {f : Operator} {parameters : List Text} {scope : Scope} {samples : List Sample}

/-- No function makes up a key. -/
theorem apply_keysFrom (hshuffle : (scope.shuffle samples).Perm samples) :
    Gives (KeysFrom · samples) (f.apply parameters scope samples) := by
  have htake : ∀ ordered : List Sample, ordered.Perm samples → Gives (KeysFrom · samples) (do
      let p ← ranking f parameters scope samples
      return Choice.take samples ordered p.1 p.2) := by
    refine fun ordered hperm => .bind fun p _ => .ok fun y hy => ?_
    obtain ⟨x, hx, hk⟩ := exists_key_of_mem_take hy
    exact ⟨x, hperm.subset hx, hk⟩
  cases hr : f.ranks with
  | false =>
      by_cases hl : f = .last
      · rw [hl]
        refine .bind fun size _ => .ok fun y hy => ⟨y, ?_, rfl⟩
        exact List.mem_reverse.mp ((List.take_sublist _ _).subset hy)
      · exact fun out hout => (apply_follows hr (fun h => absurd h hl) out hout).keysFrom
  | true =>
      cases f with
      | top => exact htake _ (sorted_perm _ _)
      | bottom => exact htake _ (sorted_perm _ _)
      | random => exact htake _ hshuffle
      | _ => cases hr

end Operator

end SeriesQuery
