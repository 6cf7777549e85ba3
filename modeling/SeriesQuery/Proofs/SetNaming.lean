import SeriesQuery.Proofs.ExpressionOrder
import SeriesQuery.Proofs.SampleValues

/-!
# What a minimum or maximum over a set is named after

The smallest or largest sample of a set is a sample of one of its series, and the result is to be
named after that series. Which one it is is found by the key of the sample: the first series that is
led by the key. That is the right one where every series has one key and series of one key have one
root. Literal targets are such, and calls hand this on unless they name their result after the whole
of their inside. Where series mix keys, or two of them share a key under different roots, the name
may be that of another series.
-/

namespace SeriesQuery

/-! ## Series that their keys tell the root of -/

/-- Series of one key each, whose root is that of the key. -/
structure RootedBy (root : Text → Text) (series : List Series) : Prop where
  /-- A series has samples of one key. -/
  one_key : ∀ t ∈ series, ∀ x ∈ t.samples, ∀ y ∈ t.samples, x.key = y.key
  /-- The root of a series is that of its key. -/
  root_eq : ∀ t ∈ series, ∀ x ∈ t.samples, root x.key = t.root

theorem seriesOfKey?_spec {series : List Series} {key : Text} {g : Series}
    (h : seriesOfKey? series key = some g) : g ∈ series ∧ ∃ x ∈ g.samples, x.key = key := by
  have hlead := List.find?_some h
  refine ⟨List.mem_of_find?_eq_some h, ?_⟩
  split at hlead
  · next first hfirst => exact ⟨first, List.mem_of_head? hfirst, eq_of_beq hlead⟩
  · cases hlead

namespace RootedBy

variable {root : Text → Text} {inputs out : List Series}

/-- Series whose samples have the keys of a series before, under its root. -/
theorem of_keys (h : RootedBy root inputs)
    (hout : ∀ t ∈ out, t.samples ≠ [] → ∃ u ∈ inputs, t.root = u.root
      ∧ KeysFrom t.samples u.samples) : RootedBy root out where
  one_key t ht x hx y hy := by
    obtain ⟨u, hu, -, hkeys⟩ := hout t ht (List.ne_nil_of_mem hx)
    obtain ⟨x', hx', hxk⟩ := hkeys x hx
    obtain ⟨y', hy', hyk⟩ := hkeys y hy
    rw [← hxk, ← hyk]
    exact h.one_key u hu x' hx' y' hy'
  root_eq t ht x hx := by
    obtain ⟨u, hu, hroot, hkeys⟩ := hout t ht (List.ne_nil_of_mem hx)
    obtain ⟨x', hx', hxk⟩ := hkeys x hx
    rw [hroot, ← hxk]
    exact h.root_eq u hu x' hx'

/-- Some series is led by the key of a sample, and it has the root of the key. -/
theorem exists_seriesOfKey? (h : RootedBy root inputs) {x : Sample} (hx : x ∈ allSamples inputs) :
    ∃ g ∈ inputs, seriesOfKey? inputs x.key = some g ∧ g.root = root x.key
      ∧ ∃ y ∈ g.samples, y.key = x.key := by
  obtain ⟨t, ht, hxt⟩ := List.mem_flatMap.mp hx
  have hsome : (seriesOfKey? inputs x.key).isSome := by
    unfold seriesOfKey?
    rw [List.find?_isSome]
    refine ⟨t, ht, ?_⟩
    obtain ⟨first, rest, hfirst⟩ := List.exists_cons_of_ne_nil (List.ne_nil_of_mem hxt)
    have hmem : first ∈ t.samples := hfirst ▸ List.mem_cons_self
    rw [hfirst]
    exact beq_iff_eq.mpr (h.one_key t ht first hmem x hxt)
  obtain ⟨g, hg⟩ := Option.isSome_iff_exists.mp hsome
  obtain ⟨hmem, y, hy, hyk⟩ := seriesOfKey?_spec hg
  exact ⟨g, hmem, hg, (h.root_eq g hmem y hy).symm.trans (congrArg root hyk), y, hy, hyk⟩

end RootedBy

/-! ## Calls -/

namespace Call

/-- The root of what is named after the series that a key leads. -/
def rootOf (c : Call) (inputs : List Series) (key : Text) : Text :=
  ((seriesOfKey? inputs key).map (·.root)).getD c.inner

/-- A call that gives each series the root of its key, if its inputs have those. -/
def KeepsRoots (c : Call) : Prop :=
  c.operator = .label ∨
    match c.grouping with
    | .each => True
    | .set => c.operator.isRepresentative = true
    | .slice => c.operator.isScalar = false

variable {engine : Engine} {m : Material} {c : Call} {inputs out : List Series}

theorem root_setSeries (hc : c.operator.isRepresentative = true) (x : Sample) :
    (c.setSeries inputs [x]).root = c.rootOf inputs x.key := by
  unfold setSeries rootOf
  rw [if_pos hc]
  dsimp only [List.head?_cons, Option.bind_some]
  cases seriesOfKey? inputs x.key with
  | none => rfl
  | some g => rfl

/-- A representative sample is named after the series that its key leads. -/
theorem setSeries_keys {root : Text → Text} (h : RootedBy root inputs)
    (hc : c.operator.isRepresentative = true) {samples : List Sample} (hne : samples ≠ [])
    (hone : samples.length ≤ 1) (hkeys : KeysFrom samples (allSamples inputs)) :
    ∃ g ∈ inputs, (c.setSeries inputs samples).root = g.root
      ∧ KeysFrom (c.setSeries inputs samples).samples g.samples := by
  obtain ⟨x, rfl⟩ := List.length_eq_one_iff.mp
    (Nat.le_antisymm hone (List.length_pos_iff.mpr hne))
  obtain ⟨y, hy, hyx⟩ := hkeys x List.mem_cons_self
  obtain ⟨g, hg, hsource, -, z, hz, hzk⟩ := h.exists_seriesOfKey? hy
  refine ⟨g, hg, ?_, ?_⟩
  · rw [root_setSeries hc, rootOf, ← hyx, hsource]
    rfl
  · rw [samples_setSeries]
    intro w hw
    exact ⟨z, hz, by rw [hzk, hyx, List.mem_singleton.mp hw]⟩

/-- What is put together by key stands under the root of the key. -/
theorem sliceSeries_keys {root : Text → Text} (h : RootedBy root inputs) (c : Call)
    {samples : List Sample} (hkeys : KeysFrom samples (allSamples inputs)) {t : Series}
    (ht : t ∈ c.sliceSeries inputs samples) :
    ∃ g ∈ inputs, t.root = g.root ∧ KeysFrom t.samples g.samples := by
  obtain ⟨key, hkey, rfl⟩ := List.mem_map.mp ht
  obtain ⟨x, hx, rfl⟩ := List.mem_map.mp (List.mem_eraseDups.mp hkey)
  obtain ⟨y, hy, hyx⟩ := hkeys x hx
  obtain ⟨g, hg, hsource, -, z, hz, hzk⟩ := h.exists_seriesOfKey? hy
  rw [hyx] at hsource hzk
  refine ⟨g, hg, ?_, fun w hw => ⟨z, hz, ?_⟩⟩
  · simp only [hsource]
  · have hw := (List.mem_filter.mp hw).2
    rw [hzk, eq_of_beq hw]

theorem Yields.set_eq {t : Series} (hop : c.operator ≠ .label) (hg : c.grouping = .set)
    (happly : c.operator.apply c.parameters ⟨.set, m.names, engine.shuffle⟩ (allSamples inputs)
      = .ok t.samples) (ht : c.setSeries inputs t.samples = t) : c.Yields engine m inputs [t] := by
  have h := Yields.set hop hg happly
  rwa [ht] at h

theorem renamed_keys (inputs : List Series) (names : List Text) :
    ∀ t ∈ List.zipWith (fun input name => { input with name }) inputs names,
      ∃ u ∈ inputs, t.root = u.root ∧ KeysFrom t.samples u.samples := by
  induction inputs generalizing names with
  | nil => exact fun t ht => by cases ht
  | cons u inputs ih =>
      cases names with
      | nil => exact fun t ht => by cases ht
      | cons name names =>
          intro t ht
          rcases List.mem_cons.mp ht with rfl | ht
          · exact ⟨u, List.mem_cons_self, rfl, fun y hy => ⟨y, hy, rfl⟩⟩
          · obtain ⟨v, hv, hkeys⟩ := ih names t ht
            exact ⟨v, List.mem_cons_of_mem _ hv, hkeys⟩

/-- A call that keeps roots yields series under the root of their key. -/
theorem Yields.rooted (hshuffle : ∀ samples, (engine.shuffle samples).Perm samples)
    {root : Text → Text} (hc : c.KeepsRoots) (h : RootedBy root inputs)
    (hy : c.Yields engine m inputs out) : RootedBy root out := by
  refine h.of_keys fun t ht hne => ?_
  cases hy with
  | label => exact renamed_keys inputs _ t ht
  | each hop hg hall =>
      obtain ⟨u, hu, samples, happly, rfl⟩ := exists_of_forall₂_right hall ht
      exact ⟨u, hu, rfl, Operator.apply_keysFrom (hshuffle _) samples happly⟩
  | set hop hg happly =>
      have hc := hc.resolve_left hop
      rw [hg] at hc
      obtain rfl := List.mem_singleton.mp ht
      rw [samples_setSeries] at hne
      have hscalar : c.operator.isScalar = true := by
        revert hc
        cases c.operator <;> simp [Operator.isRepresentative, Operator.isScalar, Operator.signature]
      exact setSeries_keys h hc hne (Operator.apply_length_le_one (.inl hscalar) _ happly)
        (Operator.apply_keysFrom (hshuffle _) _ happly)
  | slice hop hg hp _ hall =>
      have hc := hc.resolve_left hop
      rw [hg] at hc
      rw [if_neg (by rw [hc]; exact Bool.false_ne_true)] at ht
      refine sliceSeries_keys h c (fun y hy => ?_) ht
      obtain ⟨samples, hsamples, hy⟩ := List.mem_flatten.mp hy
      obtain ⟨slice, hslice, happly⟩ := exists_of_forall₂_right hall hsamples
      obtain ⟨x, hx, hk⟩ := Operator.apply_keysFrom (hshuffle _) samples happly y hy
      have hx := Slicer.mem_of_mem_slicesFrom hslice hx
      rw [show (Slicer.ofInputs _ _).inputs.flatten = _ from Slicer.flatten_nonempty _] at hx
      exact ⟨x, by rwa [allSamples, List.flatMap_def], hk⟩

end Call

/-! ## Expressions -/

theorem Targets.series_of_pairwise {targets : Targets} {data : RawData}
    (h : data.kept.Pairwise fun x y => totalRank x.time ≤ totalRank y.time) :
    targets.series data = targets.entries.map fun t => ⟨t.display,
      if t.aliased then t.key else t.display, data.kept.filter (·.key == t.key)⟩ := by
  refine List.map_congr_left fun t _ => ?_
  unfold RawData.samplesOf
  rw [sortByTime_of_pairwise (h.filter _)]

theorem Targets.rooted_series {root : Text → Text} {targets : Targets} (data : RawData)
    (h : ∀ t ∈ targets.entries, root t.key = if t.aliased then t.key else t.display) :
    RootedBy root (targets.series data) := by
  have hkey : ∀ (key : Text), ∀ x ∈ data.samplesOf key, x.key = key := fun key x hx =>
    eq_of_beq (List.mem_filter.mp (List.mem_mergeSort.mp hx)).2
  constructor
  · intro series hseries x hx y hy
    obtain ⟨t, -, rfl⟩ := List.mem_map.mp hseries
    rw [hkey t.key x hx, hkey t.key y hy]
  · intro series hseries x hx
    obtain ⟨t, ht, rfl⟩ := List.mem_map.mp hseries
    rw [hkey t.key x hx]
    exact h t ht

namespace Expression

/-- A text that is evaluated on the way to another: the text itself, or the inside of a call. -/
def Inside (text inside : Text) : Prop :=
  inside = text ∨ ∃ call, CallWithin text call ∧ inside = call.inner

/-- Wherever a text has a key among its literal targets, the series of the key has the same
root. -/
def LiteralRoots (engine : Engine) (root : Text → Text) (text : Text) : Prop :=
  ∀ inside, Inside text inside → ∀ e, parse inside = .ok e → ∀ targets,
    Resolver.resolve engine.catalog engine.layout e.remainder = .ok targets →
    ∀ t ∈ targets.entries, root t.key = if t.aliased then t.key else t.display

variable {engine : Engine} {m : Material} {root : Text → Text}

theorem LiteralRoots.inner {text : Text} {e : Expression} {call : Call}
    (h : LiteralRoots engine root text) (he : parse text = .ok e) (hcall : call ∈ e.calls) :
    LiteralRoots engine root call.inner := by
  rintro inside (rfl | ⟨c, hc, rfl⟩)
  · exact h _ (.inr ⟨call, .here he hcall, rfl⟩)
  · exact h _ (.inr ⟨c, .deeper he hcall hc, rfl⟩)

theorem WithLiterals.rooted {e : Expression} {called out : List Series}
    (hcalled : RootedBy root called) (hroots : ∀ targets,
      Resolver.resolve engine.catalog engine.layout e.remainder = .ok targets →
      ∀ t ∈ targets.entries, root t.key = if t.aliased then t.key else t.display)
    (h : e.WithLiterals engine m called out) : RootedBy root out := by
  rcases h with ⟨-, rfl⟩ | ⟨-, targets, hresolve, rfl⟩
  · exact hcalled
  · have hseries := targets.rooted_series m.data (hroots targets hresolve)
    exact {
      one_key := fun t ht => (List.mem_append.mp ht).elim (hcalled.one_key t) (hseries.one_key t)
      root_eq := fun t ht => (List.mem_append.mp ht).elim (hcalled.root_eq t) (hseries.root_eq t) }

/-- An expression whose literal targets agree on roots, and all of whose calls keep them, yields
series of one key each under the root of the key. -/
theorem YieldsFrom.rooted (hshuffle : ∀ samples, (engine.shuffle samples).Perm samples)
    {depth : ℕ} {text : Text} {out : List Series}
    (hcalls : ∀ call, CallWithin text call → call.KeepsRoots)
    (hroots : LiteralRoots engine root text) (h : YieldsFrom engine m depth text out) :
    RootedBy root out := by
  induction depth generalizing text out with
  | zero =>
      obtain ⟨e, he, hlit⟩ := h
      refine hlit.rooted ⟨fun t ht => ?_, fun t ht => ?_⟩ (hroots text (.inl rfl) e he)
      · cases ht
      · cases ht
  | succ depth ih =>
      obtain ⟨e, called, he, hall, hlit⟩ := h
      refine hlit.rooted ?_ (hroots text (.inl rfl) e he)
      have hrooted : ∀ series ∈ called, RootedBy root series := by
        intro series hseries
        obtain ⟨call, hcall, inputs, hin, hyields⟩ := exists_of_forall₂_right hall hseries
        have hinside := ih (fun c hc => hcalls c (.deeper he hcall hc)) (hroots.inner he hcall) hin
        exact hyields.rooted hshuffle (hcalls call (.here he hcall)) hinside
      constructor
      · intro t ht
        obtain ⟨series, hseries, ht⟩ := List.mem_flatten.mp ht
        exact (hrooted series hseries).one_key t ht
      · intro t ht
        obtain ⟨series, hseries, ht⟩ := List.mem_flatten.mp ht
        exact (hrooted series hseries).root_eq t ht

end Expression

/-! ## The smallest and the largest sample -/

namespace Reduction

/-- A sample is another one, or its value is worse. -/
def Outdone (better : Float → Float → Bool) (x y : Sample) : Prop :=
  y = x ∨ better x.value y.value = true ∧ better y.value x.value = false

variable {better : Float → Float → Bool} {x s : Sample} {l : List Sample} {best : Option Sample}

theorem keepBetter_cases {y : Sample} (h : y ∈ keepBetter better best s) : y = s ∨ y ∈ best := by
  unfold keepBetter at h
  split at h
  · cases h
    exact .inl rfl
  · split at h
    · cases h
      exact .inl rfl
    · exact .inr h

theorem keepBetter_eq (hself : better x.value x.value = false) (hs : Outdone better x s)
    (hbest : ∀ y ∈ best, Outdone better x y) (h : s = x ∨ best = some x) :
    keepBetter better best s = some x := by
  cases best with
  | none =>
      obtain rfl := h.resolve_right (by simp)
      rfl
  | some b =>
      unfold keepBetter
      dsimp only
      rcases h with rfl | hb
      · rcases hbest b rfl with rfl | ⟨hwin, -⟩
        · rw [hself, if_neg Bool.false_ne_true]
        · rw [if_pos hwin]
      · obtain rfl := Option.some.inj hb
        rcases hs with rfl | ⟨-, hlose⟩
        · rw [hself, if_neg Bool.false_ne_true]
        · rw [if_neg (by rw [hlose]; exact Bool.false_ne_true)]

/-- A sample that is better than all others is the one that is found. -/
theorem foldl_keepBetter_eq (hself : better x.value x.value = false)
    (hmem : x ∈ l ∨ best = some x) (hl : ∀ y ∈ l, Outdone better x y)
    (hbest : ∀ y ∈ best, Outdone better x y) : l.foldl (keepBetter better) best = some x := by
  induction l generalizing best with
  | nil => exact hmem.resolve_left List.not_mem_nil
  | cons s rest ih =>
      obtain ⟨hs, hrest⟩ := List.forall_mem_cons.mp hl
      refine ih ?_ hrest fun y hy => (keepBetter_cases hy).elim (fun h => h ▸ hs) (hbest y)
      rw [List.mem_cons] at hmem
      rcases hmem with (rfl | hmem) | hb
      · exact .inr (keepBetter_eq hself hs hbest (.inl rfl))
      · exact .inl hmem
      · exact .inr (keepBetter_eq hself hs hbest (.inr hb))

end Reduction

/-- A function that finds the sample whose value is better than those of all others, with a value
that is better than another. -/
structure Operator.Finds (f : Operator) (better : Float → Float → Bool) (win lose : Float) :
    Prop where
  /-- The function goes through the samples and keeps the better one. -/
  apply_eq : ∀ parameters scope samples, f.apply parameters scope samples
    = .ok ((Reduction.dated samples).foldl (Reduction.keepBetter better) none).toList
  /-- The one value is better than the other. -/
  win_lose : better win lose = true
  /-- The other is not better than the one. -/
  lose_win : better lose win = false
  /-- The value is not better than itself. -/
  win_win : better win win = false
  /-- What is found is one of the samples. -/
  representative : f.isRepresentative = true

theorem Operator.exists_finds {f : Operator} (hf : f = .minimum ∨ f = .maximum) :
    ∃ better win lose, f.Finds better win lose := by
  rcases hf with rfl | rfl
  · exact ⟨fun x y => x < y, 0.0, 1.0,
      { apply_eq := fun _ _ _ => rfl
        win_lose := by decide +kernel
        lose_win := by decide +kernel
        win_win := by decide +kernel
        representative := rfl }⟩
  · exact ⟨fun x y => y < x, 1.0, 0.0,
      { apply_eq := fun _ _ _ => rfl
        win_lose := by decide +kernel
        lose_win := by decide +kernel
        win_win := by decide +kernel
        representative := rfl }⟩

/-! ## Other values -/

/-- A series with other values. -/
def Series.revalue (v : Sample → Float) (t : Series) : Series :=
  { t with samples := t.samples.map fun x => x.withValue (v x) }

variable {inputs : List Series} {v : Sample → Float}

theorem seriesOfKey?_revalue (v : Sample → Float) (inputs : List Series) (key : Text) :
    seriesOfKey? (inputs.map (Series.revalue v)) key
      = (seriesOfKey? inputs key).map (Series.revalue v) := by
  unfold seriesOfKey?
  rw [List.find?_map]
  congr 2
  funext t
  unfold Series.revalue
  rw [Function.comp_apply, List.head?_map]
  cases t.samples.head? with
  | none => rfl
  | some first => rfl

theorem mem_dated_revalue {y : Sample} :
    y ∈ Reduction.dated (allSamples (inputs.map (Series.revalue v)))
      ↔ ∃ x ∈ allSamples inputs, 0.0 < x.time ∧ x.withValue (v x) = y := by
  have hall : allSamples (inputs.map (Series.revalue v))
      = (allSamples inputs).map fun x => x.withValue (v x) := by
    unfold allSamples Series.revalue
    rw [List.flatMap_map, List.map_flatMap]
  unfold Reduction.dated
  rw [hall, List.mem_filter, List.mem_map]
  constructor
  · rintro ⟨⟨x, hx, rfl⟩, htime⟩
    exact ⟨x, hx, of_decide_eq_true htime, rfl⟩
  · rintro ⟨x, hx, htime, rfl⟩
    exact ⟨⟨x, hx, rfl⟩, decide_eq_true htime⟩

/-! ## Naming the source -/

namespace Call

variable {engine : Engine} {m : Material} {c : Call}

/-- Every sample that the call over a set yields comes from a series that the result has the root
of. -/
def NamesSource (engine : Engine) (m : Material) (c : Call) (inputs : List Series) : Prop :=
  ∀ s out, (c.applySet engine m inputs).result s = .ok out →
    ∀ t ∈ out, ∀ x ∈ t.samples, ∃ g ∈ inputs, x ∈ g.samples ∧ t.root = g.root

/-- For every sample after time zero, the root that its key leads to is that of a series which the
sample comes from. -/
def RootsFound (c : Call) (inputs : List Series) : Prop :=
  ∀ x ∈ allSamples inputs, 0.0 < x.time →
    ∃ g ∈ inputs, x ∈ g.samples ∧ c.rootOf inputs x.key = g.root

theorem applySet_inv {s : Session} {out : List Series}
    (h : (c.applySet engine m inputs).result s = .ok out) : ∃ samples,
      c.operator.apply c.parameters ⟨.set, m.names, engine.shuffle⟩ (allSamples inputs)
          = .ok samples
        ∧ out = [c.setSeries inputs samples] := by
  obtain ⟨-, -, h⟩ := Step.exists_of_result_bind h
  obtain ⟨samples, happly, h⟩ := Step.exists_of_result_bind h
  rw [Step.result_ofExcept] at happly
  exact ⟨samples, happly, (Except.ok.inj h).symm⟩

theorem delivers_applySet {samples : List Sample} (h : c.operator.apply c.parameters
    ⟨.set, m.names, engine.shuffle⟩ (allSamples inputs) = .ok samples) :
    Delivers engine (c.applySet engine m inputs) [c.setSeries inputs samples] :=
  .bind .patience (.bind (.ofExcept h) (.pure _))

theorem rootOf_revalue (c : Call) (v : Sample → Float) (inputs : List Series) (key : Text) :
    c.rootOf (inputs.map (Series.revalue v)) key = c.rootOf inputs key := by
  unfold rootOf
  rw [seriesOfKey?_revalue]
  cases seriesOfKey? inputs key with
  | none => rfl
  | some g => rfl

/-- The sample found and the root of the result. -/
theorem found_of_result {better : Float → Float → Bool} {win lose : Float}
    (hc : c.operator.Finds better win lose) {s : Session} {out : List Series}
    (h : (c.applySet engine m inputs).result s = .ok out) {t : Series} (ht : t ∈ out) {x : Sample}
    (hx : x ∈ t.samples) : x ∈ Reduction.dated (allSamples inputs)
      ∧ t.root = c.rootOf inputs x.key := by
  obtain ⟨samples, happly, rfl⟩ := applySet_inv h
  rw [hc.apply_eq] at happly
  obtain rfl := List.mem_singleton.mp ht
  rw [samples_setSeries] at hx
  obtain rfl := Except.ok.inj happly
  have hfound := Option.mem_toList.mp hx
  refine ⟨Reduction.mem_foldl_keepBetter better (List.Subset.refl _) (fun y hy => by cases hy) x
    hfound, ?_⟩
  rw [hfound]
  exact root_setSeries hc.representative x

/-- With the winning value on one sample alone, it is the one that is found. -/
theorem finds_winner {better : Float → Float → Bool} {win lose : Float}
    (hc : c.operator.Finds better win lose) {x : Sample} (hx : x ∈ allSamples inputs)
    (htime : 0.0 < x.time) (parameters : List Text) (scope : Scope) :
    c.operator.apply parameters scope (allSamples
      (inputs.map (Series.revalue fun y => if y = x then win else lose)))
        = .ok [x.withValue win] := by
  have hmem : x.withValue win ∈ Reduction.dated
      (allSamples (inputs.map (Series.revalue fun y => if y = x then win else lose))) :=
    mem_dated_revalue.mpr ⟨x, hx, htime, by rw [if_pos rfl]⟩
  have hothers : ∀ y ∈ Reduction.dated
      (allSamples (inputs.map (Series.revalue fun y => if y = x then win else lose))),
      Reduction.Outdone better (x.withValue win) y := by
    intro y hy
    obtain ⟨z, -, -, rfl⟩ := mem_dated_revalue.mp hy
    split
    · next hz => exact .inl (by rw [hz])
    · unfold Reduction.Outdone
      rw [Sample.value_withValue, Sample.value_withValue]
      exact .inr ⟨hc.win_lose, hc.lose_win⟩
  have hself : better (x.withValue win).value (x.withValue win).value = false := by
    rw [Sample.value_withValue, hc.win_win]
  rw [hc.apply_eq, Reduction.foldl_keepBetter_eq hself (.inl hmem) hothers
    fun y hy => by cases hy]
  rfl

/-- A minimum or maximum over a set names its source whatever the values are, if and only if the
key of every sample after time zero leads to the root of a series that the sample comes from. -/
theorem namesSource_iff (hc : c.operator = .minimum ∨ c.operator = .maximum) :
    (∀ v, c.NamesSource engine m (inputs.map (Series.revalue v))) ↔ c.RootsFound inputs := by
  obtain ⟨better, win, lose, hf⟩ := Operator.exists_finds hc
  constructor
  · intro h x hx htime
    let v : Sample → Float := fun y => if y = x then win else lose
    have hdelivers : Delivers engine (c.applySet engine m (inputs.map (Series.revalue v))) _ :=
      delivers_applySet (finds_winner hf hx htime _ _)
    have hresult := (hdelivers (Session.start 60000 (Clock.still 0)) ⟨.start _ _, rfl⟩).1
    have hmem : x.withValue win
        ∈ (c.setSeries (inputs.map (Series.revalue v)) [x.withValue win]).samples := by
      rw [samples_setSeries]
      exact List.mem_singleton_self _
    obtain ⟨g', hg', hxg, hroot⟩ := h v _ _ hresult _ (List.mem_singleton_self _) _ hmem
    obtain ⟨g, hg, rfl⟩ := List.mem_map.mp hg'
    obtain ⟨z, hz, hzx⟩ := List.mem_map.mp hxg
    -- Only the sample itself has the winning value.
    have hvalue : v z = win := by
      rw [← Sample.value_withValue z (v z), hzx, Sample.value_withValue]
    have hzx : z = x := by
      by_contra hne
      have hlose : lose = win := (if_neg hne).symm.trans hvalue
      have hwin := hf.win_lose
      rw [hlose, hf.win_win] at hwin
      cases hwin
    rw [root_setSeries hf.representative, rootOf_revalue] at hroot
    exact ⟨g, hg, hzx ▸ hz, hroot⟩
  · intro h v s out hout t ht y hy
    obtain ⟨hdated, hroot⟩ := found_of_result hf hout ht hy
    obtain ⟨x, hx, htime, rfl⟩ := mem_dated_revalue.mp hdated
    obtain ⟨g, hg, hxg, hfound⟩ := h x hx htime
    rw [rootOf_revalue] at hroot
    exact ⟨_, List.mem_map_of_mem hg, List.mem_map_of_mem hxg, hroot.trans hfound⟩

/-- Where the keys tell the roots, the source is named. -/
theorem namesSource_of_rooted {root : Text → Text} (hin : RootedBy root inputs)
    (hc : c.operator = .minimum ∨ c.operator = .maximum) : c.NamesSource engine m inputs := by
  obtain ⟨better, win, lose, hf⟩ := Operator.exists_finds hc
  intro s out hout t ht x hx
  obtain ⟨hdated, hroot⟩ := found_of_result hf hout ht hx
  have hx := Reduction.mem_of_mem_dated hdated
  obtain ⟨g, hg, hsource, hgroot, -⟩ := hin.exists_seriesOfKey? hx
  obtain ⟨u, hu, hxu⟩ := List.mem_flatMap.mp hx
  refine ⟨u, hu, hxu, ?_⟩
  rw [hroot, rootOf, hsource, ← hin.root_eq u hu x hxu, ← hgroot]
  rfl

end Call

namespace Expression

variable {engine : Engine} {m : Material}

/-- Over what an expression evaluates to, in a session with sound caches as all are, a minimum or
maximum over a set has the root of a series that its sample comes from, if the literal targets
within the expression agree on the root of each key and all its calls keep roots. Over any series
it has such a root for all values that their samples might have, if and only if the key of every
sample after time zero leads to one. -/
theorem set_names_source (hshuffle : ∀ samples, (engine.shuffle samples).Perm samples)
    {depth : ℕ} {text : Text} {s : Session} (hs : s.Sound engine.catalog engine.layout)
    {inputs : List Series} (heval : (evaluateFrom engine m depth text).result s = .ok inputs)
    {c : Call} (hc : c.operator = .minimum ∨ c.operator = .maximum) :
    ((∀ call, CallWithin text call → call.KeepsRoots) → (∃ root, LiteralRoots engine root text) →
        c.NamesSource engine m inputs)
      ∧ ((∀ v, c.NamesSource engine m (inputs.map (Series.revalue v))) ↔ c.RootsFound inputs) := by
  refine ⟨fun hcalls ⟨root, hroots⟩ => ?_, Call.namesSource_iff hc⟩
  have hyields := ((assembled_evaluateFrom m depth text (.inl trivial)).sound hs).2 inputs heval
  exact Call.namesSource_of_rooted (hyields.rooted hshuffle hcalls hroots) hc

/-- Literal targets alone yield what is kept of them. -/
theorem yieldsFrom_literals {text : Text} {targets : Targets}
    (hparse : parse text = .ok ⟨[], text⟩) (hne : text ≠ [])
    (hresolve : Resolver.resolve engine.catalog engine.layout text = .ok targets)
    (hkept : m.data.kept.Pairwise fun x y => totalRank x.time ≤ totalRank y.time) :
    YieldsFrom engine m 0 text (targets.entries.map fun t => ⟨t.display,
      if t.aliased then t.key else t.display, m.data.kept.filter (·.key == t.key)⟩) :=
  ⟨⟨[], text⟩, hparse, .inr ⟨hne, _, hresolve, (Targets.series_of_pairwise hkept).symm⟩⟩

/-- A call with literal targets beside it yields what the call does, then what is kept of them. -/
theorem yieldsFrom_beside {text rest : Text} {call : Call} {inputs called : List Series}
    {targets : Targets} (hparse : parse text = .ok ⟨[call], rest⟩) (hne : rest ≠ [])
    (hinside : YieldsFrom engine m 0 call.inner inputs) (hcall : call.Yields engine m inputs called)
    (hresolve : Resolver.resolve engine.catalog engine.layout rest = .ok targets)
    (hkept : m.data.kept.Pairwise fun x y => totalRank x.time ≤ totalRank y.time) :
    YieldsFrom engine m 1 text (called ++ targets.entries.map fun t => ⟨t.display,
      if t.aliased then t.key else t.display, m.data.kept.filter (·.key == t.key)⟩) := by
  refine ⟨_, [called], hparse, .cons ⟨_, hinside, hcall⟩ .nil, .inr ⟨hne, targets, hresolve, ?_⟩⟩
  rw [Targets.series_of_pairwise hkept, List.flatten_singleton]

/-- The minimum of two series beside the second of them. -/
theorem set_names_source_minimum :
    let engine : Engine := ⟨Catalog.empty, ⟨[], [], [], []⟩, Archive.source ⟨[]⟩, id⟩
    let one : Sample := .of (Text.of "PPA:1") 1.0 1000.0 0
    let ten : Sample := .of (Text.of "PPA:2") 10.0 1000.0 0
    let m : Material := ⟨⟨[one, ten]⟩, NameTable.empty⟩
    let text := Text.of "SetMinimum(PPA:1; PPA:2); PPA:2"
    let inputs : List Series := [⟨Text.of "SetMinimum = PPA:1", Text.of "PPA:1", [one]⟩,
      ⟨Text.of "PPA:2", Text.of "PPA:2", [ten]⟩]
    let c : Call := ⟨.set, .maximum, [], text⟩
    (evaluateFrom engine m 1 text).result (Session.start 60000 (Clock.still 0)) = .ok inputs
      ∧ c.NamesSource engine m inputs := by
  intro engine one ten m text inputs c
  let call : Call := ⟨.set, .minimum, [], Text.of "PPA:1; PPA:2"⟩
  have hparse : parse text = .ok ⟨[call], Text.of "; PPA:2"⟩ := by
    rw [parse, scan_eq]
    decide +kernel
  have hinner : parse call.inner = .ok ⟨[], call.inner⟩ := by decide +kernel
  have hpair : Resolver.resolve engine.catalog engine.layout call.inner
      = .ok ⟨[⟨Text.of "PPA:1", Text.of "PPA:1", false⟩,
          ⟨Text.of "PPA:2", Text.of "PPA:2", false⟩], []⟩ := by
    decide +kernel
  have hsecond : Resolver.resolve engine.catalog engine.layout (Text.of "; PPA:2")
      = .ok ⟨[⟨Text.of "PPA:2", Text.of "PPA:2", false⟩], []⟩ := by
    decide +kernel
  have hkept : m.data.kept.Pairwise fun x y => totalRank x.time ≤ totalRank y.time := by
    decide +kernel
  have honly : ∀ c, CallWithin text c → c = call := fun c hc => hc.eq_of_single hparse hinner
  have hinside : YieldsFrom engine m 0 call.inner [⟨Text.of "PPA:1", Text.of "PPA:1", [one]⟩,
      ⟨Text.of "PPA:2", Text.of "PPA:2", [ten]⟩] :=
    yieldsFrom_literals hinner (by decide) hpair hkept
  have hcall : call.Yields engine m [⟨Text.of "PPA:1", Text.of "PPA:1", [one]⟩,
      ⟨Text.of "PPA:2", Text.of "PPA:2", [ten]⟩]
      [⟨Text.of "SetMinimum = PPA:1", Text.of "PPA:1", [one]⟩] :=
    .set_eq (by decide) rfl (by decide +kernel) (by decide +kernel)
  have hyields : YieldsFrom engine m 1 text inputs :=
    yieldsFrom_beside hparse (by decide) hinside hcall hsecond hkept
  have hroots : LiteralRoots engine id text := by
    rintro inside (rfl | ⟨c, hc, rfl⟩) e he targets htargets
    · cases hparse.symm.trans he
      cases hsecond.symm.trans htargets
      decide
    · rw [honly c hc] at he
      cases hinner.symm.trans he
      cases hpair.symm.trans htargets
      decide
  have hwaits : (Session.start 60000 (Clock.still 0)).Waits engine := ⟨.start _ _, rfl⟩
  have hlabels : ∀ c, CallWithin text c → c.operator ≠ .label := fun c hc => by
    rw [honly c hc]
    decide
  have hkeeps : ∀ c, CallWithin text c → c.KeepsRoots := fun c hc => by
    rw [honly c hc]
    exact .inr rfl
  have heval := (hyields.delivers hlabels _ hwaits).1
  have h := set_names_source (fun samples => .refl samples) hwaits.sound heval
    (c := c) (.inr rfl)
  exact ⟨heval, h.1 hkeeps ⟨id, hroots⟩⟩

/-- The average of two series has the key of the second. Beside the second it is led by the same
key, and comes first: the maximum, a sample of the second series, is named after the two. -/
theorem set_misnames_beside_average :
    let engine : Engine := ⟨Catalog.empty, ⟨[], [], [], []⟩, Archive.source ⟨[]⟩, id⟩
    let one : Sample := .of (Text.of "PPA:1") 1.0 1000.0 0
    let ten : Sample := .of (Text.of "PPA:2") 10.0 1000.0 0
    let average : Sample := .of (Text.of "PPA:2") 5.5 1000.0 0
    let m : Material := ⟨⟨[one, ten]⟩, NameTable.empty⟩
    let text := Text.of "SetAverage(PPA:1; PPA:2); PPA:2"
    let inputs : List Series := [⟨Text.of "SetAverage(PPA:1; PPA:2)", Text.of "PPA:1; PPA:2",
      [average]⟩, ⟨Text.of "PPA:2", Text.of "PPA:2", [ten]⟩]
    let c : Call := ⟨.set, .maximum, [], text⟩
    let s := Session.start 60000 (Clock.still 0)
    (evaluateFrom engine m 1 text).result s = .ok inputs
      ∧ (c.applySet engine m inputs).result s
        = .ok [⟨Text.of "SetMaximum = PPA:1; PPA:2", Text.of "PPA:1; PPA:2", [ten]⟩]
      ∧ ¬ c.NamesSource engine m inputs := by
  intro engine one ten average m text inputs c s
  let call : Call := ⟨.set, .average, [], Text.of "PPA:1; PPA:2"⟩
  have hparse : parse text = .ok ⟨[call], Text.of "; PPA:2"⟩ := by
    rw [parse, scan_eq]
    decide +kernel
  have hinner : parse call.inner = .ok ⟨[], call.inner⟩ := by decide +kernel
  have hpair : Resolver.resolve engine.catalog engine.layout call.inner
      = .ok ⟨[⟨Text.of "PPA:1", Text.of "PPA:1", false⟩,
          ⟨Text.of "PPA:2", Text.of "PPA:2", false⟩], []⟩ := by
    decide +kernel
  have hsecond : Resolver.resolve engine.catalog engine.layout (Text.of "; PPA:2")
      = .ok ⟨[⟨Text.of "PPA:2", Text.of "PPA:2", false⟩], []⟩ := by
    decide +kernel
  have hkept : m.data.kept.Pairwise fun x y => totalRank x.time ≤ totalRank y.time := by
    decide +kernel
  have hinside : YieldsFrom engine m 0 call.inner [⟨Text.of "PPA:1", Text.of "PPA:1", [one]⟩,
      ⟨Text.of "PPA:2", Text.of "PPA:2", [ten]⟩] :=
    yieldsFrom_literals hinner (by decide) hpair hkept
  have hcall : call.Yields engine m [⟨Text.of "PPA:1", Text.of "PPA:1", [one]⟩,
      ⟨Text.of "PPA:2", Text.of "PPA:2", [ten]⟩]
      [⟨Text.of "SetAverage(PPA:1; PPA:2)", Text.of "PPA:1; PPA:2", [average]⟩] :=
    .set_eq (by decide) rfl (by decide +kernel) (by decide +kernel)
  have hyields : YieldsFrom engine m 1 text inputs :=
    yieldsFrom_beside hparse (by decide) hinside hcall hsecond hkept
  have hlabels : ∀ c, CallWithin text c → c.operator ≠ .label := fun c hc => by
    rw [hc.eq_of_single hparse hinner]
    decide
  have hwaits : s.Waits engine := ⟨.start _ _, rfl⟩
  have hmaximum : (c.applySet engine m inputs).result s
      = .ok [⟨Text.of "SetMaximum = PPA:1; PPA:2", Text.of "PPA:1; PPA:2", [ten]⟩] := by
    have happly : c.operator.apply c.parameters ⟨.set, m.names, engine.shuffle⟩ (allSamples inputs)
        = .ok [ten] := by
      decide +kernel
    have hset : c.setSeries inputs [ten]
        = ⟨Text.of "SetMaximum = PPA:1; PPA:2", Text.of "PPA:1; PPA:2", [ten]⟩ := by
      decide +kernel
    rw [← hset]
    exact (Call.delivers_applySet happly s hwaits).1
  refine ⟨(hyields.delivers hlabels s hwaits).1, hmaximum, fun h => ?_⟩
  obtain ⟨g, hg, hten, hroot⟩ := h s _ hmaximum _ (List.mem_singleton_self _) ten
    (List.mem_singleton_self _)
  rcases List.mem_cons.mp hg with rfl | hg
  · revert hten
    decide +kernel
  · obtain rfl := List.mem_singleton.mp hg
    revert hroot
    decide

end Expression

end SeriesQuery
