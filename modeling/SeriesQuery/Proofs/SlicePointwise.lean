import SeriesQuery.Proofs.ExpressionOrder
import SeriesQuery.Proofs.FirstOccurrences
import SeriesQuery.Proofs.SliceWindows

/-!
# Functions of one sample over slices

A function that looks at one sample at a time may be applied to each series, or to slices across
all of them. The second way takes the samples apart by time and puts what comes out together again
by key. Without any tolerance a slice has no two samples of a series, so none is lost, and since
slices follow one another in time each series is put together in its order: both ways give the same
series, except that the second has none that are empty and lists them by time.
-/

open SeriesQuery.Binary64

namespace SeriesQuery

/-! ## Functions of one sample -/

namespace Parameter

/-- A call spells out a number as its parameter. -/
def SpellsNumber (parameters : List Text) (index : Nat) : Prop :=
  ∃ t, parameters[index]? = some t ∧ ∃ x, readFloat? (Text.trim t) = some x

theorem required_of_getElem? {parameters : List Text} {index : Nat} {t : Text} (f : Operator)
    (h : parameters[index]? = some t) : required f parameters index = .ok t := by
  unfold required
  rw [h]

theorem float_of_readFloat? {t : Text} {x : Float} (h : readFloat? (Text.trim t) = some x)
    (scope : Scope) (samples : List Sample) : float scope samples false t = .ok x := by
  unfold float
  dsimp only
  rw [h]
  rfl

end Parameter

namespace Operator

/-- The functions that look at one sample at a time, with parameters that are spelled out and that
they accept. -/
def AcceptsLiterals (parameters : List Text) : Operator → Prop
  | .absoluteValue | .floor | .ceiling | .truncate => True
  | .add | .subtract | .multiply | .divide => Parameter.SpellsNumber parameters 0
  | .round => ∃ n, Parameter.optional Parameter.integer parameters 0 0 = .ok n
  | .wrapAngle => ∃ unit, Parameter.optional AngleUnit.read parameters 0 .degrees = .ok unit
  | .includeRange | .excludeRange =>
    Parameter.SpellsNumber parameters 0 ∧ Parameter.SpellsNumber parameters 1
      ∧ ∃ low high, Parameter.optional Parameter.flag parameters 2 false = .ok low
        ∧ Parameter.optional Parameter.flag parameters 3 low = .ok high
  | .filterNaN => ∃ b, Parameter.optional Parameter.flag parameters 0 true = .ok b
  | _ => False

/-- A function that yields for each sample by itself a sample of its key, or none. -/
structure Pointwise (f : Operator) (parameters : List Text) (g : Sample → Option Sample) :
    Prop where
  /-- What is yielded for samples is what is yielded for each of them. -/
  apply_eq : ∀ scope samples, f.apply parameters scope samples = .ok (samples.filterMap g)
  /-- Keys stay. -/
  key_eq : ∀ x y, g x = some y → y.key = x.key

variable {f : Operator} {parameters : List Text}

theorem pointwise_map {g : Sample → Sample}
    (happly : ∀ scope samples, f.apply parameters scope samples = .ok (samples.map g))
    (hkey : ∀ x, (g x).key = x.key) : ∃ g, f.Pointwise parameters g := by
  refine ⟨fun s => some (g s), fun scope samples => ?_, fun x y hy => ?_⟩
  · rw [happly, List.filterMap_eq_map']
  · cases hy
    exact hkey x

theorem pointwise_mapValues {h : Float → Float} (happly : ∀ scope samples,
    f.apply parameters scope samples = .ok (mapValues h samples)) : ∃ g, f.Pointwise parameters g :=
  pointwise_map happly fun _ => rfl

theorem pointwise_filter {p : Sample → Bool} (happly : ∀ scope samples,
    f.apply parameters scope samples = .ok (samples.filter p)) : ∃ g, f.Pointwise parameters g := by
  refine ⟨Option.guard p, fun scope samples => ?_, fun x y hy => ?_⟩
  · rw [happly, List.filterMap_eq_filter]
  · rw [(Option.guard_eq_some_iff.mp hy).1]

theorem operand_of_spellsNumber (h : Parameter.SpellsNumber parameters 0) (f : Operator) :
    ∃ x, ∀ scope samples, operand f parameters scope samples = .ok x := by
  obtain ⟨t, ht, x, hx⟩ := h
  refine ⟨x, fun scope samples => ?_⟩
  unfold operand
  rw [Parameter.required_of_getElem? f ht]
  exact Parameter.float_of_readFloat? hx scope samples

theorem valueRange_of_spellsNumber (h0 : Parameter.SpellsNumber parameters 0)
    (h1 : Parameter.SpellsNumber parameters 1) {low high : Bool}
    (hlow : Parameter.optional Parameter.flag parameters 2 false = .ok low)
    (hhigh : Parameter.optional Parameter.flag parameters 3 low = .ok high) (f : Operator) :
    ∃ range, ∀ scope samples, ValueRange.read f parameters scope samples = .ok range := by
  obtain ⟨t, ht, x, hx⟩ := h0
  obtain ⟨u, hu, y, hy⟩ := h1
  refine ⟨⟨x, y, low, high⟩, fun scope samples => ?_⟩
  unfold ValueRange.read
  rw [Parameter.required_of_getElem? f ht, Parameter.required_of_getElem? f hu]
  simp only [bind, Except.bind, Parameter.float_of_readFloat? hx scope samples,
    Parameter.float_of_readFloat? hy scope samples, hlow, hhigh]
  rfl

theorem AcceptsLiterals.pointwise (h : f.AcceptsLiterals parameters) :
    ∃ g, f.Pointwise parameters g := by
  cases f <;> try exact absurd h id
  case absoluteValue => exact pointwise_map (fun _ _ => rfl) fun _ => rfl
  case floor => exact pointwise_mapValues fun _ _ => rfl
  case ceiling => exact pointwise_mapValues fun _ _ => rfl
  case truncate => exact pointwise_mapValues fun _ _ => rfl
  case add =>
    obtain ⟨x, hx⟩ := operand_of_spellsNumber h .add
    exact pointwise_mapValues fun scope samples => by unfold apply; rw [hx]; rfl
  case subtract =>
    obtain ⟨x, hx⟩ := operand_of_spellsNumber h .subtract
    exact pointwise_mapValues fun scope samples => by unfold apply; rw [hx]; rfl
  case multiply =>
    obtain ⟨x, hx⟩ := operand_of_spellsNumber h .multiply
    exact pointwise_mapValues fun scope samples => by unfold apply; rw [hx]; rfl
  case divide =>
    obtain ⟨x, hx⟩ := operand_of_spellsNumber h .divide
    exact pointwise_mapValues fun scope samples => by unfold apply; rw [hx]; rfl
  case round =>
    obtain ⟨n, hn⟩ := h
    exact pointwise_mapValues fun scope samples => by unfold apply; rw [hn]; rfl
  case wrapAngle =>
    obtain ⟨unit, hunit⟩ := h
    exact pointwise_mapValues fun scope samples => by unfold apply; rw [hunit]; rfl
  case includeRange =>
    obtain ⟨h0, h1, low, high, hlow, hhigh⟩ := h
    obtain ⟨range, hrange⟩ := valueRange_of_spellsNumber h0 h1 hlow hhigh .includeRange
    exact pointwise_filter fun scope samples => by unfold apply; rw [hrange]; rfl
  case excludeRange =>
    obtain ⟨h0, h1, low, high, hlow, hhigh⟩ := h
    obtain ⟨range, hrange⟩ := valueRange_of_spellsNumber h0 h1 hlow hhigh .excludeRange
    exact pointwise_filter fun scope samples => by unfold apply; rw [hrange]; rfl
  case filterNaN =>
    obtain ⟨b, hb⟩ := h
    exact pointwise_filter fun scope samples => by unfold apply; rw [hb]; rfl

end Operator

/-- Choosing by key and applying a function of one sample come to the same in either order. -/
theorem filter_key_filterMap {g : Sample → Option Sample}
    (hg : ∀ x y, g x = some y → y.key = x.key) (key : Text) (samples : List Sample) :
    (samples.filterMap g).filter (·.key == key) = (samples.filter (·.key == key)).filterMap g := by
  induction samples with
  | nil => rfl
  | cons x samples ih =>
      cases hx : g x with
      | none =>
          rw [List.filterMap_cons_none hx, ih, List.filter_cons]
          split
          · rw [List.filterMap_cons_none hx]
          · rfl
      | some y =>
          rw [List.filterMap_cons_some hx, List.filter_cons, List.filter_cons, ih, hg x y hx]
          split
          · rw [List.filterMap_cons_some hx]
          · rfl

/-! ## Slices without tolerance -/

/-- Where none that comes after another has a property, at most one has it. -/
theorem length_filter_le_one_of_pairwise {α : Type} {R : α → α → Prop} {p : α → Bool} {l : List α}
    (h : l.Pairwise R) (hafter : ∀ a ∈ l, ∀ b, R a b → ¬ p b = true) :
    (l.filter p).length ≤ 1 := by
  match hlist : l.filter p with
  | [] => simp
  | [_] => simp
  | a :: b :: rest =>
      have ha : a ∈ l.filter p := by simp [hlist]
      have hb : b ∈ l.filter p := by simp [hlist]
      have hpairs := h.filter p
      rw [hlist] at hpairs
      have hab := (List.pairwise_cons.mp hpairs).1 b List.mem_cons_self
      exact absurd (List.mem_filter.mp hb).2 (hafter a (List.mem_filter.mp ha).1 b hab)

namespace Slicer

/-- Of one key there is only one sample at a time. -/
def KeysAdvance (s : Slicer) : Prop :=
  ∀ key, (s.inputs.flatten.filter (·.key == key)).Pairwise fun a b => a.time < b.time

theorem LastOfEachKey.filter_key {slice taken : List Sample} (h : LastOfEachKey slice taken)
    {key : Text} (hone : (taken.filter (·.key == key)).length ≤ 1) :
    slice.filter (·.key == key) = taken.filter (·.key == key) := by
  have hsub : slice.filter (·.key == key) ⊆ taken.filter (·.key == key) := fun x hx =>
    have hx := List.mem_filter.mp hx
    List.mem_filter.mpr ⟨h.subset hx.1, hx.2⟩
  rcases Nat.le_one_iff_eq_zero_or_eq_one.mp hone with hnone | hone
  · rw [List.eq_nil_of_length_eq_zero hnone] at hsub ⊢
    exact List.subset_nil.mp hsub
  · obtain ⟨x, hx⟩ := List.length_eq_one_iff.mp hone
    have hxt := List.mem_filter.mp (hx ▸ List.mem_singleton_self x)
    obtain ⟨t, ht, hkey⟩ := h.complete x hxt.1
    have htk : t ∈ slice.filter (·.key == key) :=
      List.mem_filter.mpr ⟨ht, beq_iff_eq.mpr (hkey.trans (eq_of_beq hxt.2))⟩
    have hle := length_filter_key_le_one h.nodup key
    obtain ⟨y, hy⟩ := List.length_eq_one_iff.mp (Nat.le_antisymm hle (List.length_pos_of_mem htk))
    rw [hy, hx] at hsub ⊢
    rw [List.mem_singleton.mp (hsub (List.mem_singleton_self y))]

variable {s s' : Slicer}

/-- Without tolerance a reading ends before whatever is later than a sample that it might take. -/
theorem Reads.not_isUpTo_of_lt (hs : s.Steady) (ht : s.tolerance = 0.0) {w : Window}
    (hr : Reads s.tolerance s w s') {a b : Sample} (ha : a ∈ s.inputs.flatten)
    (hab : a.time < b.time) : ¬ b.isUpTo (w.start + s.tolerance) = true := by
  obtain ⟨first, hfirst, hstart⟩ := hr.start_mem
  have hfinite : w.start.isFinite = true := hstart ▸ hs.finite_flatten hfirst
  have hstop := (value_add_zero hfinite).2
  intro hb
  rw [Sample.isUpTo_iff, ht] at hb
  have h1 := (le_iff.mp (hr.start_le a ha)).2.2
  have h2 := (lt_iff.mp hab).2.2
  have h3 := (le_iff.mp hb).2.2
  rw [hstop] at h3
  linarith

/-- Without tolerance a reading takes one sample of a key at most, the first that is left of it. -/
theorem KeysAdvance.next (h : s.KeysAdvance) (hs : s.Steady) (ht : s.tolerance = 0.0) {w : Window}
    (hr : Reads s.tolerance s w s') : s'.KeysAdvance ∧ ∀ key,
      w.slice.filter (·.key == key) ++ s'.inputs.flatten.filter (·.key == key)
        = s.inputs.flatten.filter (·.key == key) := by
  have hleft : s'.inputs.flatten
      = s.inputs.flatten.filter fun x => !x.isUpTo (w.start + s.tolerance) := by
    rw [hr.inputs_eq, flatten_nonempty, List.filter_flatten]
  have hparts : ∀ key, (w.taken.filter (·.key == key)).length ≤ 1
      ∧ w.taken.filter (·.key == key) ++ s'.inputs.flatten.filter (·.key == key)
        = s.inputs.flatten.filter (·.key == key) := by
    intro key
    have hafter : ∀ a ∈ s.inputs.flatten.filter (·.key == key), ∀ b : Sample, a.time < b.time →
        ¬ b.isUpTo (w.start + s.tolerance) = true := fun a ha b hab =>
      hr.not_isUpTo_of_lt hs ht (List.mem_filter.mp ha).1 hab
    rw [hr.taken_eq, hleft, List.filter_comm (fun x => x.key == key) (Sample.isUpTo _),
      List.filter_comm (fun x => x.key == key) fun x => !Sample.isUpTo _ x]
    obtain ⟨hfront, hback⟩ := takeWhile_dropWhile_of_pairwise
      (p := Sample.isUpTo (w.start + s.tolerance))
      ((h key).imp_of_mem fun {a b} ha _ hab hb => absurd hb (hafter a ha b hab))
    exact ⟨length_filter_le_one_of_pairwise (h key) hafter,
      by rw [← hfront, ← hback, List.takeWhile_append_dropWhile]⟩
  refine ⟨fun key => ?_, fun key => ?_⟩
  · exact (h key).sublist ((hparts key).2 ▸ List.sublist_append_right _ _)
  · rw [hr.lastOfEachKey.filter_key (hparts key).1]
    exact (hparts key).2

/-- Without tolerance the slices give the samples of each key in their order. -/
theorem KeysAdvance.filter_slices (h : s.KeysAdvance) (hs : s.Steady) (ht : s.tolerance = 0.0)
    {fuel : ℕ} (hfuel : s.pending ≤ fuel) (key : Text) :
    (slicesFrom true fuel s).flatten.filter (·.key == key)
      = s.inputs.flatten.filter (·.key == key) := by
  induction fuel generalizing s with
  | zero =>
      have hnone : s.inputs.flatten = [] := List.eq_nil_of_length_eq_zero (Nat.le_zero.mp hfuel)
      rw [hnone]
      rfl
  | succ fuel ih =>
      unfold slicesFrom
      cases hcomplete : s.isComplete with
      | true =>
          rw [List.isEmpty_iff.mp hcomplete]
          rfl
      | false =>
          obtain ⟨w, s', hr, hs', htol, hperm, -⟩ := hs.reads hcomplete
          obtain ⟨hnext, hsplit⟩ := h.next hs ht hr
          have hfewer := hr.pending_lt hperm
          rw [if_neg Bool.false_ne_true, hr.result]
          dsimp only
          rw [List.flatten_cons, List.filter_append, ih hnext hs' (htol.trans ht) (by omega)]
          exact hsplit key

end Slicer

/-! ## Series of different keys -/

/-- Series of one key each, no two of the same, whose times are finite and increase. -/
structure SeparateSeries (inputs : List Series) : Prop where
  /-- A series has samples of one key. -/
  one_key : ∀ t ∈ inputs, ∀ x ∈ t.samples, ∀ y ∈ t.samples, x.key = y.key
  /-- Two series have none in common. -/
  keys_differ : inputs.Pairwise fun t u => ∀ x ∈ t.samples, ∀ y ∈ u.samples, x.key ≠ y.key
  /-- All times are finite. -/
  finite : ∀ t ∈ inputs, ∀ x ∈ t.samples, x.time.isFinite = true
  /-- The times of a series increase. -/
  increasing : ∀ t ∈ inputs, t.samples.Pairwise fun a b => a.time < b.time

namespace SeparateSeries

variable {inputs : List Series}

theorem tail {t : Series} (h : SeparateSeries (t :: inputs)) : SeparateSeries inputs where
  one_key u hu := h.one_key u (List.mem_cons_of_mem _ hu)
  keys_differ := (List.pairwise_cons.mp h.keys_differ).2
  finite u hu := h.finite u (List.mem_cons_of_mem _ hu)
  increasing u hu := h.increasing u (List.mem_cons_of_mem _ hu)

/-- The samples of a key are those of the series that has it. -/
theorem filter_key (h : SeparateSeries inputs) {t : Series} (ht : t ∈ inputs) {x : Sample}
    (hx : x ∈ t.samples) : (allSamples inputs).filter (·.key == x.key) = t.samples := by
  induction inputs with
  | nil => cases ht
  | cons u inputs ih =>
      have hcons : allSamples (u :: inputs) = u.samples ++ allSamples inputs := rfl
      rw [hcons, List.filter_append]
      have hdiffer := (List.pairwise_cons.mp h.keys_differ).1
      rcases List.mem_cons.mp ht with rfl | ht
      · have hall : t.samples.filter (·.key == x.key) = t.samples :=
          List.filter_eq_self.mpr fun y hy =>
            beq_iff_eq.mpr (h.one_key t List.mem_cons_self y hy x hx)
        have hnone : (allSamples inputs).filter (·.key == x.key) = [] := by
          refine List.filter_eq_nil_iff.mpr fun y hy he => ?_
          obtain ⟨v, hv, hyv⟩ := List.mem_flatMap.mp hy
          exact hdiffer v hv x hx y hyv (eq_of_beq he).symm
        rw [hall, hnone, List.append_nil]
      · have hnone : u.samples.filter (·.key == x.key) = [] :=
          List.filter_eq_nil_iff.mpr fun y hy he => hdiffer t ht y hy x hx (eq_of_beq he)
        rw [hnone, List.nil_append]
        exact ih h.tail ht

/-- The first series led by a key is the one that has it. -/
theorem seriesOfKey?_eq (h : SeparateSeries inputs) {t : Series} (ht : t ∈ inputs) {x : Sample}
    (hx : x ∈ t.samples) : seriesOfKey? inputs x.key = some t := by
  induction inputs with
  | nil => cases ht
  | cons u inputs ih =>
      unfold seriesOfKey? at ih ⊢
      cases hhead : u.samples.head? with
      | none =>
          rw [List.find?_cons_of_neg (by simp [hhead])]
          rcases List.mem_cons.mp ht with rfl | ht
          · rw [List.head?_eq_none_iff.mp hhead] at hx
            cases hx
          · exact ih h.tail ht
      | some first =>
          have hfirst := List.mem_of_head? hhead
          rcases List.mem_cons.mp ht with rfl | ht
          · have hkey := h.one_key t List.mem_cons_self first hfirst x hx
            rw [List.find?_cons_of_pos (by simp [hhead, hkey])]
          · have hkey := (List.pairwise_cons.mp h.keys_differ).1 t ht first hfirst x hx
            rw [List.find?_cons_of_neg (by simp [hhead, hkey])]
            exact ih h.tail ht

theorem steady (h : SeparateSeries inputs) (tolerance : Float) :
    (Slicer.ofInputs tolerance (inputs.map (·.samples))).Steady := by
  refine Slicer.steady_ofInputs (fun l hl => ?_) fun l hl => ?_
  · obtain ⟨t, ht, rfl⟩ := List.mem_map.mp hl
    exact h.finite t ht
  · obtain ⟨t, ht, rfl⟩ := List.mem_map.mp hl
    exact (h.increasing t ht).imp le_of_lt

theorem flatten_ofInputs (tolerance : Float) (inputs : List Series) :
    (Slicer.ofInputs tolerance (inputs.map (·.samples))).inputs.flatten = allSamples inputs :=
  (Slicer.flatten_nonempty _).trans (List.flatMap_def (f := Series.samples)).symm

theorem keysAdvance (h : SeparateSeries inputs) (tolerance : Float) :
    (Slicer.ofInputs tolerance (inputs.map (·.samples))).KeysAdvance := by
  intro key
  rw [flatten_ofInputs]
  by_cases hnil : (allSamples inputs).filter (·.key == key) = []
  · rw [hnil]
    exact .nil
  · obtain ⟨x, hx⟩ := List.exists_mem_of_ne_nil _ hnil
    obtain ⟨hx, hkey⟩ := List.mem_filter.mp hx
    obtain ⟨t, ht, hxt⟩ := List.mem_flatMap.mp hx
    rw [← eq_of_beq hkey, h.filter_key ht hxt]
    exact h.increasing t ht

end SeparateSeries

/-! ## Putting series together -/

/-- The key of the first sample of a series. -/
def Series.leadKey (t : Series) : Text := (t.samples.head?.map (·.key)).getD []

theorem Series.exists_lead {t : Series} (h : t.samples ≠ []) :
    ∃ x ∈ t.samples, x.key = t.leadKey := by
  obtain ⟨x, rest, hx⟩ := List.exists_cons_of_ne_nil h
  refine ⟨x, by simp [hx], ?_⟩
  unfold leadKey
  rw [hx]
  rfl

/-- The series that a function of one sample yields something for. -/
def liveSeries (g : Sample → Option Sample) (inputs : List Series) : List Series :=
  inputs.filter fun t => !(t.samples.filterMap g).isEmpty

variable {inputs : List Series} {g : Sample → Option Sample}

theorem mem_liveSeries {t : Series} :
    t ∈ liveSeries g inputs ↔ t ∈ inputs ∧ t.samples.filterMap g ≠ [] := by
  simp [liveSeries]

theorem exists_lead_of_mem_liveSeries {t : Series} (h : t ∈ liveSeries g inputs) :
    ∃ x ∈ t.samples, x.key = t.leadKey :=
  Series.exists_lead fun hnil => (mem_liveSeries.mp h).2 (by rw [hnil]; rfl)

namespace SeparateSeries

theorem nodup_leadKeys (h : SeparateSeries inputs) (g : Sample → Option Sample) :
    ((liveSeries g inputs).map Series.leadKey).Nodup := by
  refine List.pairwise_map.mpr ((h.keys_differ.filter _).imp_of_mem fun {t u} ht hu htu => ?_)
  obtain ⟨x, hx, hxk⟩ := exists_lead_of_mem_liveSeries ht
  obtain ⟨y, hy, hyk⟩ := exists_lead_of_mem_liveSeries hu
  rw [← hxk, ← hyk]
  exact htu x hx y hy

section Merged

variable {merged : List Sample}
  (hmerged : ∀ key, merged.filter (·.key == key) = (allSamples inputs).filter (·.key == key))
  (hg : ∀ x y, g x = some y → y.key = x.key)

include hmerged

theorem exists_series_of_mem_merged {x : Sample} (hx : x ∈ merged) :
    ∃ t ∈ inputs, x ∈ t.samples := by
  have hx : x ∈ (allSamples inputs).filter (·.key == x.key) := by
    rw [← hmerged]
    exact List.mem_filter.mpr ⟨hx, beq_self_eq_true _⟩
  exact List.mem_flatMap.mp (List.mem_filter.mp hx).1

include hg

/-- What is yielded under the key of a series is what is yielded for the series. -/
theorem filter_key_merged (h : SeparateSeries inputs) {t : Series} (ht : t ∈ inputs) {x : Sample}
    (hx : x ∈ t.samples) :
    (merged.filterMap g).filter (·.key == x.key) = t.samples.filterMap g := by
  rw [filter_key_filterMap hg, hmerged, h.filter_key ht hx]

/-- What is yielded has the keys of the series that something is yielded for. -/
theorem keys_merged (h : SeparateSeries inputs) :
    ((merged.filterMap g).map (·.key)).eraseDups.Perm
      ((liveSeries g inputs).map Series.leadKey) := by
  refine (List.perm_ext_iff_of_nodup (nodup_eraseDups _) (h.nodup_leadKeys g)).mpr fun key => ?_
  rw [List.mem_eraseDups, List.mem_map, List.mem_map]
  constructor
  · rintro ⟨y, hy, rfl⟩
    obtain ⟨x, hx, hxy⟩ := List.mem_filterMap.mp hy
    obtain ⟨t, ht, hxt⟩ := exists_series_of_mem_merged hmerged hx
    have hlive : t ∈ liveSeries g inputs :=
      mem_liveSeries.mpr ⟨ht, List.ne_nil_of_mem (List.mem_filterMap.mpr ⟨x, hxt, hxy⟩)⟩
    obtain ⟨z, hz, hzk⟩ := exists_lead_of_mem_liveSeries hlive
    exact ⟨t, hlive, by rw [← hzk, hg x y hxy, h.one_key t ht z hz x hxt]⟩
  · rintro ⟨t, hlive, rfl⟩
    obtain ⟨ht, hne⟩ := mem_liveSeries.mp hlive
    obtain ⟨x, hx, hxk⟩ := exists_lead_of_mem_liveSeries hlive
    obtain ⟨y, hy⟩ := List.exists_mem_of_ne_nil _ hne
    rw [← filter_key_merged hmerged hg h ht hx, hxk] at hy
    exact ⟨y, (List.mem_filter.mp hy).1, eq_of_beq (List.mem_filter.mp hy).2⟩

/-- What is put together by key is what a function of one sample yields for each series that it
yields something for. -/
theorem sliceSeries_perm (h : SeparateSeries inputs) (c : Call) :
    ((c.sliceSeries inputs (merged.filterMap g)).map fun t => (t.root, t.samples)).Perm
      ((liveSeries g inputs).map fun t => (t.root, t.samples.filterMap g)) := by
  unfold Call.sliceSeries
  rw [List.map_map]
  refine ((keys_merged hmerged hg h).map _).trans (.of_eq ?_)
  rw [List.map_map]
  refine List.map_congr_left fun t hlive => ?_
  obtain ⟨x, hx, hxk⟩ := exists_lead_of_mem_liveSeries hlive
  have ht := (mem_liveSeries.mp hlive).1
  have hsource := h.seriesOfKey?_eq ht hx
  rw [hxk] at hsource
  simp only [Function.comp_apply, hsource]
  rw [← hxk, filter_key_merged hmerged hg h ht hx]

end Merged

end SeparateSeries

/-! ## Calls -/

namespace Call

variable {engine : Engine} {m : Material} {c : Call}

/-- Applied to slices without tolerance, a function that looks at one sample at a time gives the
series that it gives when it is applied to each of them, those without samples left out. -/
theorem slices_pointwise {tolerance : Text} {parameters : List Text} {seconds : Float}
    (hgrouping : c.grouping = .slice) (hparameters : c.parameters = tolerance :: parameters)
    (htolerance : Parameter.float ⟨.set, m.names, engine.shuffle⟩ (allSamples inputs) true tolerance
      = .ok seconds) (hzero : seconds = 0.0 ∨ seconds = -0.0)
    (hliterals : c.operator.AcceptsLiterals parameters) (hinputs : SeparateSeries inputs) :
    ∃ sliced plain, Delivers engine (c.apply engine m inputs) sliced
      ∧ Delivers engine (Call.apply engine m { c with grouping := .each, parameters } inputs) plain
      ∧ plain.map (·.root) = inputs.map (·.root)
      ∧ (sliced.map fun t => (t.root, t.samples)).Perm
        ((plain.filter (!·.samples.isEmpty)).map fun t => (t.root, t.samples)) := by
  obtain ⟨g, hg⟩ := hliterals.pointwise
  have hop : c.operator ≠ .label := fun h => by
    rw [h] at hliterals
    exact hliterals
  have hscalar : c.operator.isScalar = false := by
    revert hliterals
    cases c.operator <;> first | exact fun h => h.elim | exact fun _ => rfl
  let slicer := Slicer.ofInputs (seconds * 1000.0) (inputs.map (·.samples))
  have hnone : slicer.tolerance = 0.0 := by
    show (if 0.0 < seconds * 1000.0 then seconds * 1000.0 else 0.0) = 0.0
    rcases hzero with rfl | rfl
    · decide +kernel
    · decide +kernel
  have hslice : c.Yields engine m inputs
      (c.sliceSeries inputs ((slicer.slices true).flatten.filterMap g)) := by
    have hall : List.Forall₂ (fun slice samples =>
        c.operator.apply parameters ⟨.slice, m.names, engine.shuffle⟩ slice = .ok samples)
        (slicer.slices true) ((slicer.slices true).map (·.filterMap g)) :=
      List.forall₂_map_right_iff.mpr (List.forall₂_same.mpr fun slice _ => hg.apply_eq _ slice)
    have hy := Yields.slice hop hgrouping hparameters htolerance hall
    rwa [hscalar, if_neg Bool.false_ne_true, ← List.filterMap_flatten] at hy
  have heach : Call.Yields engine m { c with grouping := .each, parameters } inputs
      (inputs.map fun t => ⟨Call.nameFor { c with grouping := .each, parameters } t.name, t.root,
        t.samples.filterMap g⟩) :=
    .each hop rfl (List.forall₂_map_right_iff.mpr (List.forall₂_same.mpr fun t _ =>
      ⟨_, hg.apply_eq _ t.samples, rfl⟩))
  refine ⟨_, _, hslice.delivers hop, heach.delivers hop, ?_, ?_⟩
  · rw [List.map_map]
    rfl
  · rw [List.filter_map, List.map_map]
    refine SeparateSeries.sliceSeries_perm (fun key => ?_) hg.key_eq hinputs c
    have hall := (hinputs.keysAdvance (seconds * 1000.0)).filter_slices
      (hinputs.steady (seconds * 1000.0)) hnone (le_refl _) key
    rwa [SeparateSeries.flatten_ofInputs] at hall

/-- A range that takes some samples of one series, all of another and none of a third. -/
theorem slices_pointwise_includeRange :
    let engine : Engine := ⟨Catalog.empty, ⟨[], [], [], []⟩, Archive.source ⟨[]⟩, id⟩
    let m : Material := ⟨RawData.empty, NameTable.empty⟩
    let c : Call := ⟨.slice, .includeRange, [Text.of "0", Text.of "0", Text.of "5"],
      Text.of "PPA:1; PPA:2; PPA:3"⟩
    let a : Series := ⟨['A'], ['A'], [.of (Text.of "PPA:1") 7.0 1000.0 0,
      .of (Text.of "PPA:1") 1.0 2000.0 0, .of (Text.of "PPA:1") 4.0 3000.0 0]⟩
    let b : Series := ⟨['B'], ['B'], [.of (Text.of "PPA:2") 2.0 1000.0 0,
      .of (Text.of "PPA:2") 3.0 1500.0 0]⟩
    let n : Series := ⟨['N'], ['N'], [.of (Text.of "PPA:3") 9.0 2000.0 0]⟩
    ∃ sliced plain, Delivers engine (c.apply engine m [a, b, n]) sliced
      ∧ Delivers engine (Call.apply engine m
        { c with grouping := .each, parameters := [Text.of "0", Text.of "5"] } [a, b, n]) plain
      ∧ plain.map (·.root) = [['A'], ['B'], ['N']]
      ∧ (sliced.map fun t => (t.root, t.samples)).Perm
        ((plain.filter (!·.samples.isEmpty)).map fun t => (t.root, t.samples)) := by
  intro engine m c a b n
  have hzero : readFloat? (Text.trim (Text.of "0")) = some 0.0 := by decide +kernel
  have hfive : readFloat? (Text.trim (Text.of "5")) = some 5.0 := by decide +kernel
  have htolerance : Parameter.float ⟨.set, m.names, engine.shuffle⟩ (allSamples [a, b, n]) true
      (Text.of "0") = .ok 0.0 := by
    decide +kernel
  have hliterals : Operator.AcceptsLiterals [Text.of "0", Text.of "5"] .includeRange :=
    ⟨⟨_, rfl, _, hzero⟩, ⟨_, rfl, _, hfive⟩, false, false, rfl, rfl⟩
  have hinputs : SeparateSeries [a, b, n] :=
    { one_key := by decide +kernel
      keys_differ := by decide +kernel
      finite := by decide +kernel
      increasing := by decide +kernel }
  exact slices_pointwise rfl rfl htolerance (.inl rfl) hliterals hinputs

end Call

end SeriesQuery
