import SeriesQuery.Proofs.Binary64.Rank
import SeriesQuery.Proofs.CacheTransparency
import SeriesQuery.Proofs.Delivery
import SeriesQuery.Proofs.FunctionOrder
import SeriesQuery.Proofs.ScanSteps
import SeriesQuery.Proofs.SliceAlignment

/-!
# Which expressions yield series in order

The series of literal targets are in order, since raw data are sorted by time. A call hands order
on if its function does: applied to each series; applied to a set when that leaves at most one
sample, because the samples of a set stand one series after the other; applied to slices when
it neither makes up times nor gives more of a key than a slice has, because slices lie one before
the other. An expression all of whose calls are such yields series in order, and these are what a
call over slices reads in aligned slices.
-/

open SeriesQuery.Binary64

namespace SeriesQuery

/-! ## Raw data -/

theorem totalRank_le_trans (a b c : Sample)
    (hab : decide (totalRank a.time ≤ totalRank b.time) = true)
    (hbc : decide (totalRank b.time ≤ totalRank c.time) = true) :
    decide (totalRank a.time ≤ totalRank c.time) = true :=
  decide_eq_true ((of_decide_eq_true hab).trans (of_decide_eq_true hbc))

theorem totalRank_le_total (a b : Sample) : (decide (totalRank a.time ≤ totalRank b.time)
    || decide (totalRank b.time ≤ totalRank a.time)) = true := by
  rw [Bool.or_eq_true, decide_eq_true_iff, decide_eq_true_iff]
  exact le_total _ _

theorem pairwise_sortByTime (samples : List Sample) :
    (sortByTime samples).Pairwise fun a b => totalRank a.time ≤ totalRank b.time :=
  (List.pairwise_mergeSort totalRank_le_trans totalRank_le_total samples).imp
    fun hab => of_decide_eq_true hab

theorem inOrder_sortByTime (samples : List Sample) : InOrder (sortByTime samples) :=
  (pairwise_sortByTime samples).imp not_lt_of_totalRank_le

theorem sortByTime_of_pairwise {samples : List Sample}
    (h : samples.Pairwise fun a b => totalRank a.time ≤ totalRank b.time) :
    sortByTime samples = samples :=
  List.mergeSort_of_pairwise (h.imp fun hab => decide_eq_true hab)

/-- Every series is in order. -/
def SeriesInOrder (series : List Series) : Prop := ∀ s ∈ series, InOrder s.samples

theorem Targets.inOrder_series (m : Targets) (data : RawData) : SeriesInOrder (m.series data) := by
  intro s hs
  obtain ⟨t, -, rfl⟩ := List.mem_map.mp hs
  exact inOrder_sortByTime _

/-! ## Slices -/

theorem exists_of_forall₂_right {α β : Type} {R : α → β → Prop} {l : List α} {k : List β}
    (h : List.Forall₂ R l k) {b : β} (hb : b ∈ k) : ∃ a ∈ l, R a b := by
  induction h with
  | nil => cases hb
  | cons hab _ ih =>
      rcases List.mem_cons.mp hb with rfl | hb
      · exact ⟨_, List.mem_cons_self, hab⟩
      · obtain ⟨a, ha, hr⟩ := ih hb
        exact ⟨a, List.mem_cons_of_mem _ ha, hr⟩

theorem not_lt_of_value {y z y' z' : Float} (h : y' < z') (hy : IsNaN y ∨ value y = value y')
    (hz : IsNaN z ∨ value z = value z') : ¬ z < y := by
  intro hlt
  obtain ⟨hzn, hyn, hv⟩ := lt_iff.mp hlt
  have hv' := (lt_iff.mp h).2.2
  rw [hy.resolve_left hyn, hz.resolve_left hzn] at hv
  linarith

/-- What is yielded slice by slice lies one before the other, as the slices do. -/
theorem successive_results {slices results : List (List Sample)}
    (h : List.Forall₂ (fun slice out => StaysWithin out slice) slices results)
    (hs : slices.Pairwise fun a b => ∀ x ∈ a, ∀ y ∈ b, x.time < y.time) :
    results.Pairwise fun a b => ∀ y ∈ a, ∀ z ∈ b, ¬ z.time < y.time := by
  induction h with
  | nil => exact .nil
  | @cons slice out slices results hout hrest ih =>
      obtain ⟨hfirst, hs⟩ := List.pairwise_cons.mp hs
      refine List.pairwise_cons.mpr ⟨fun b hb y hy z hz => ?_, ih hs⟩
      obtain ⟨slice', hslice', hb⟩ := exists_of_forall₂_right hrest hb
      obtain ⟨y', hy', hvy⟩ := hout.times y hy
      obtain ⟨z', hz', hvz⟩ := hb.times z hz
      exact not_lt_of_value (hfirst slice' hslice' y' hy' z' hz') hvy hvz

/-- Of what is yielded slice by slice, no more than one sample a slice is in order. -/
theorem inOrder_filter_flatten {results : List (List Sample)} {p : Sample → Bool}
    (hone : ∀ out ∈ results, (out.filter p).length ≤ 1)
    (h : results.Pairwise fun a b => ∀ y ∈ a, ∀ z ∈ b, ¬ z.time < y.time) :
    InOrder (results.flatten.filter p) := by
  rw [List.filter_flatten]
  refine List.pairwise_flatten.mpr ⟨fun l hl => ?_, List.pairwise_map.mpr ?_⟩
  · obtain ⟨out, hout, rfl⟩ := List.mem_map.mp hl
    exact Operator.inOrder_of_length_le_one (hone out hout)
  · exact h.imp fun hab y hy z hz =>
      hab y (List.mem_of_mem_filter hy) z (List.mem_of_mem_filter hz)

theorem length_filter_key_le_one {samples : List Sample} (h : (samples.map (·.key)).Nodup)
    (key : Text) : (samples.filter (·.key == key)).length ≤ 1 := by
  have hcount := List.nodup_iff_count_le_one.mp h key
  rwa [List.count_eq_countP, List.countP_map, List.countP_eq_length_filter] at hcount

/-! ## Calls -/

namespace Call

/-- A call that hands order on. -/
def KeepsOrder (c : Call) : Prop :=
  c.operator = .label ∨
    match c.grouping with
    | .each => c.operator.KeepsOrder c.parameters
    | .set => c.operator.isScalar = true ∨ c.operator.ChoosesOne c.parameters
    | .slice => c.operator.KeepsSlices c.parameters.tail

variable {engine : Engine} {m : Material} {c : Call} {inputs out : List Series}

/-- What a call over slices yields is in order, as one series or by keys. -/
theorem inOrder_slices (hshuffle : ∀ samples, (engine.shuffle samples).Perm samples)
    {parameters : List Text} (hc : c.operator.KeepsSlices parameters) (hin : SeriesInOrder inputs)
    {tolerance : Float} {results : List (List Sample)}
    (h : List.Forall₂ (fun slice samples =>
      c.operator.apply parameters ⟨.slice, m.names, engine.shuffle⟩ slice = .ok samples)
      ((Slicer.ofInputs tolerance (inputs.map (·.samples))).slices true) results) :
    SeriesInOrder (if c.operator.isScalar then [⟨c.nameFor c.inner, c.inner, results.flatten⟩]
      else c.sliceSeries inputs results.flatten) := by
  have hlists : ∀ l ∈ inputs.map (·.samples), InOrder l := fun l hl => by
    obtain ⟨s, hs, rfl⟩ := List.mem_map.mp hl
    exact hin s hs
  have hslices := Slicer.slices_inOrder hlists tolerance
  have hwithin : List.Forall₂ (fun slice out => StaysWithin out slice)
      ((Slicer.ofInputs tolerance (inputs.map (·.samples))).slices true) results :=
    h.imp fun slice samples hs => Operator.apply_staysWithin hc (hshuffle slice) samples hs
  have hsuccessive := successive_results hwithin hslices.successive
  intro s hs
  split at hs
  · next hscalar =>
      obtain rfl := List.mem_singleton.mp hs
      have hall := inOrder_filter_flatten (p := fun _ => true) (fun out hout => ?_) hsuccessive
      · rwa [List.filter_eq_self.mpr fun _ _ => rfl] at hall
      · obtain ⟨slice, -, hs⟩ := exists_of_forall₂_right h hout
        exact (List.length_filter_le _ _).trans
          (Operator.apply_length_le_one (.inl hscalar) out hs)
  · obtain ⟨key, -, rfl⟩ := List.mem_map.mp hs
    refine inOrder_filter_flatten (fun out hout => ?_) hsuccessive
    obtain ⟨slice, hslice, hw⟩ := exists_of_forall₂_right hwithin hout
    exact length_filter_key_le_one (hw.nodup (hslices.nodup slice hslice)) key

theorem inOrder_renamed (hin : SeriesInOrder inputs) (names : List Text) :
    SeriesInOrder (List.zipWith (fun input name => { input with name }) inputs names) := by
  induction inputs generalizing names with
  | nil => exact fun s hs => by cases hs
  | cons input inputs ih =>
      cases names with
      | nil => exact fun s hs => by cases hs
      | cons name names =>
          intro s hs
          rcases List.mem_cons.mp hs with rfl | hs
          · exact hin input List.mem_cons_self
          · exact ih (fun t ht => hin t (List.mem_cons_of_mem _ ht)) names s hs

theorem samples_setSeries (c : Call) (inputs : List Series) (samples : List Sample) :
    (c.setSeries inputs samples).samples = samples := by
  unfold setSeries
  dsimp only
  split
  · rfl
  · rfl

/-- A call that hands order on yields series in order. -/
theorem Yields.inOrder (hshuffle : ∀ samples, (engine.shuffle samples).Perm samples)
    (hc : c.KeepsOrder) (hin : SeriesInOrder inputs) (h : c.Yields engine m inputs out) :
    SeriesInOrder out := by
  cases h with
  | label => exact inOrder_renamed hin _
  | each hop hg hall =>
      have hc := hc.resolve_left hop
      rw [hg] at hc
      intro s hs
      obtain ⟨input, hinput, samples, happly, rfl⟩ := exists_of_forall₂_right hall hs
      exact Operator.apply_inOrder hc (hin input hinput) samples happly
  | set hop hg happly =>
      have hc := hc.resolve_left hop
      rw [hg] at hc
      intro s hs
      rw [List.mem_singleton.mp hs, samples_setSeries]
      exact Operator.inOrder_of_length_le_one (Operator.apply_length_le_one hc _ happly)
  | slice hop hg hp _ hall =>
      have hc := hc.resolve_left hop
      rw [hg, hp] at hc
      exact inOrder_slices hshuffle hc hin hall

end Call

/-! ## Expressions -/

namespace Expression

variable {engine : Engine} {m : Material}

theorem WithLiterals.inOrder {e : Expression} {called out : List Series}
    (hcalled : SeriesInOrder called) (h : e.WithLiterals engine m called out) :
    SeriesInOrder out := by
  rcases h with ⟨-, rfl⟩ | ⟨-, targets, -, rfl⟩
  · exact hcalled
  · intro s hs
    rcases List.mem_append.mp hs with hs | hs
    · exact hcalled s hs
    · exact targets.inOrder_series m.data s hs

/-- An expression all of whose calls hand order on yields series in order. -/
theorem YieldsFrom.inOrder (hshuffle : ∀ samples, (engine.shuffle samples).Perm samples)
    {depth : ℕ} {text : Text} {out : List Series}
    (hcalls : ∀ call, CallWithin text call → call.KeepsOrder)
    (h : YieldsFrom engine m depth text out) : SeriesInOrder out := by
  induction depth generalizing text out with
  | zero =>
      obtain ⟨e, -, hlit⟩ := h
      exact hlit.inOrder fun s hs => by cases hs
  | succ depth ih =>
      obtain ⟨e, called, he, hall, hlit⟩ := h
      refine hlit.inOrder fun s hs => ?_
      obtain ⟨series, hseries, hs⟩ := List.mem_flatten.mp hs
      obtain ⟨call, hcall, inputs, hin, hyields⟩ := exists_of_forall₂_right hall hseries
      have hinside := ih (fun c hc => hcalls c (.deeper he hcall hc)) hin
      exact hyields.inOrder hshuffle (hcalls call (.here he hcall)) hinside s hs

/-- What an expression evaluates to, in a session with sound caches as all are, is settled if all
its calls hand order on. A call over slices reads aligned slices, whatever its tolerance, of
series that are settled, and only these are read so beside any others. -/
theorem slices_aligned (hshuffle : ∀ samples, (engine.shuffle samples).Perm samples)
    {depth : ℕ} {text : Text} {s : Session} (hs : s.Sound engine.catalog engine.layout)
    {inputs : List Series} (heval : (evaluateFrom engine m depth text).result s = .ok inputs) :
    ((∀ call, CallWithin text call → call.KeepsOrder) → ∀ t ∈ inputs, Settled t.samples)
      ∧ ((∀ t ∈ inputs, Settled t.samples) → ∀ tolerance,
        let slicer := Slicer.ofInputs tolerance (inputs.map (·.samples))
        ∀ slice ∈ slicer.slices true, Aligned slicer.tolerance slice)
      ∧ ∀ t ∈ inputs, (∀ x ∈ t.samples, x.time.isFinite = true) → (Settled t.samples ↔
        ∀ others : List (List Sample), (∀ k ∈ others, Settled k) → ∀ tolerance,
          let slicer := Slicer.ofInputs tolerance (t.samples :: others)
          ∀ slice ∈ slicer.slices true, Aligned slicer.tolerance slice) := by
  refine ⟨fun hcalls t ht => ?_, fun hsettled tolerance => ?_, fun t ht hfinite => ?_⟩
  · have hyields := ((assembled_evaluateFrom m depth text (.inl trivial)).sound hs).2 inputs heval
    exact (YieldsFrom.inOrder hshuffle hcalls hyields t ht).settled
  · refine Slicer.aligned_slices (fun l hl => ?_) tolerance
    obtain ⟨t, ht, rfl⟩ := List.mem_map.mp hl
    exact hsettled t ht
  · exact Slicer.settled_iff hfinite

/-- A target that resolves to the series of its key yields what is kept of it. -/
theorem yieldsFrom_key {key : Text} (hparse : parse key = .ok ⟨[], key⟩) (hne : key ≠ [])
    (hresolve : Resolver.resolve engine.catalog engine.layout key = .ok ⟨[⟨key, key, false⟩], []⟩)
    (hkept : m.data.kept.Pairwise fun a b => totalRank a.time ≤ totalRank b.time) :
    YieldsFrom engine m 0 key [⟨key, key, m.data.kept.filter (·.key == key)⟩] := by
  refine ⟨⟨[], key⟩, hparse, .inr ⟨hne, _, hresolve, ?_⟩⟩
  show _ = [Series.mk key key (sortByTime (m.data.kept.filter (·.key == key)))]
  rw [sortByTime_of_pairwise (hkept.filter _)]

/-- A key beside a call yields its series too. -/
theorem series_single {key : Text}
    (hkept : m.data.kept.Pairwise fun a b => totalRank a.time ≤ totalRank b.time) :
    (⟨[⟨key, key, false⟩], []⟩ : Targets).series m.data
      = [⟨key, key, m.data.kept.filter (·.key == key)⟩] := by
  show [Series.mk key key (sortByTime (m.data.kept.filter (·.key == key)))] = _
  rw [sortByTime_of_pairwise (hkept.filter _)]

/-- The first two samples of one series and both of another one, in slices half a second
wide. -/
theorem slices_aligned_first_two :
    let engine : Engine := ⟨Catalog.empty, ⟨[], [], [], []⟩, Archive.source ⟨[]⟩, id⟩
    let a (value time : Float) : Sample := .of (Text.of "PPA:1") value time 0
    let b (value time : Float) : Sample := .of (Text.of "PPA:2") value time 0
    let m : Material := ⟨⟨[a 10.0 1000.0, b 5.0 1500.0, a 20.0 2000.0, b 7.0 2500.0,
      a 30.0 3500.0]⟩, NameTable.empty⟩
    let inputs : List Series :=
      [⟨Text.of "First(2, PPA:1)", Text.of "PPA:1", [a 10.0 1000.0, a 20.0 2000.0]⟩,
        ⟨Text.of "PPA:2", Text.of "PPA:2", [b 5.0 1500.0, b 7.0 2500.0]⟩]
    let s := Session.start 60000 (Clock.still 0)
    (evaluateFrom engine m 1 (Text.of "First(2, PPA:1); PPA:2")).result s = .ok inputs
      ∧ (Slicer.ofInputs 500.0 (inputs.map (·.samples))).slices true
        = [[a 10.0 1000.0, b 5.0 1500.0], [a 20.0 2000.0, b 7.0 2500.0]]
      ∧ ∀ tolerance, let slicer := Slicer.ofInputs tolerance (inputs.map (·.samples))
        ∀ slice ∈ slicer.slices true, Aligned slicer.tolerance slice := by
  intro engine a b m inputs s
  let call : Call := ⟨.each, .first, [Text.of "2"], Text.of "PPA:1"⟩
  have hkept : m.data.kept.Pairwise fun x y => totalRank x.time ≤ totalRank y.time := by
    decide +kernel
  have hinside : YieldsFrom engine m 0 (Text.of "PPA:1")
      [⟨Text.of "PPA:1", Text.of "PPA:1", m.data.kept.filter (·.key == Text.of "PPA:1")⟩] :=
    yieldsFrom_key (by decide +kernel) (by decide) (by decide +kernel) hkept
  have hcall : call.Yields engine m
      [⟨Text.of "PPA:1", Text.of "PPA:1", m.data.kept.filter (·.key == Text.of "PPA:1")⟩]
      [⟨Text.of "First(2, PPA:1)", Text.of "PPA:1", [a 10.0 1000.0, a 20.0 2000.0]⟩] :=
    .each (by decide) rfl
      (.cons ⟨[a 10.0 1000.0, a 20.0 2000.0], by decide +kernel, by decide +kernel⟩ .nil)
  have hparse : parse (Text.of "First(2, PPA:1); PPA:2") = .ok ⟨[call], Text.of "; PPA:2"⟩ := by
    rw [parse, scan_eq]
    decide +kernel
  have hyields : YieldsFrom engine m 1 (Text.of "First(2, PPA:1); PPA:2") inputs := by
    refine ⟨_, _, hparse, .cons ⟨_, hinside, hcall⟩ .nil, .inr ⟨by decide,
      ⟨[⟨Text.of "PPA:2", Text.of "PPA:2", false⟩], []⟩, by decide +kernel, ?_⟩⟩
    rw [series_single hkept]
    decide +kernel
  have hkey : parse (Text.of "PPA:1") = .ok ⟨[], Text.of "PPA:1"⟩ := by decide +kernel
  have hwithin : ∀ c, CallWithin (Text.of "First(2, PPA:1); PPA:2") c → c = call := fun c hc =>
    hc.eq_of_single hparse hkey
  have hlabels : ∀ c, CallWithin (Text.of "First(2, PPA:1); PPA:2") c → c.operator ≠ .label :=
    fun c hc => by
      rw [hwithin c hc]
      decide
  have hwaits : s.Waits engine := ⟨.start 60000 (Clock.still 0), rfl⟩
  have heval := (hyields.delivers hlabels s hwaits).1
  have h := slices_aligned (fun samples => .refl samples) hwaits.sound heval
  have hkeeps : ∀ c, CallWithin (Text.of "First(2, PPA:1); PPA:2") c → c.KeepsOrder :=
    fun c hc => by
      rw [hwithin c hc]
      exact .inr trivial
  exact ⟨heval, by decide +kernel, h.2.1 (h.1 hkeeps)⟩

/-- The last two samples of a series come newest first. Beside a sample that is as new, they are
read in one slice that reaches back a second without any tolerance, and the newer one is lost. -/
theorem slices_misaligned_last_two :
    let engine : Engine := ⟨Catalog.empty, ⟨[], [], [], []⟩, Archive.source ⟨[]⟩, id⟩
    let old : Sample := .of (Text.of "PPA:1") 10.0 1000.0 0
    let new : Sample := .of (Text.of "PPA:1") 20.0 2000.0 0
    let other : Sample := .of (Text.of "PPA:2") 5.0 2000.0 0
    let m : Material := ⟨⟨[old, new, other]⟩, NameTable.empty⟩
    let inputs : List Series := [⟨Text.of "Last(2, PPA:1)", Text.of "PPA:1", [new, old]⟩,
      ⟨Text.of "PPA:2", Text.of "PPA:2", [other]⟩]
    let s := Session.start 60000 (Clock.still 0)
    (evaluateFrom engine m 1 (Text.of "Last(2, PPA:1); PPA:2")).result s = .ok inputs
      ∧ (Slicer.ofInputs 0.0 (inputs.map (·.samples))).slices true = [[old, other]]
      ∧ ¬ Aligned 0.0 [old, other] := by
  intro engine old new other m inputs s
  let call : Call := ⟨.each, .last, [Text.of "2"], Text.of "PPA:1"⟩
  have hinside : YieldsFrom engine m 0 (Text.of "PPA:1")
      [⟨Text.of "PPA:1", Text.of "PPA:1", [old, new]⟩] :=
    yieldsFrom_key (by decide +kernel) (by decide) (by decide +kernel) (by decide +kernel)
  have hcall : call.Yields engine m [⟨Text.of "PPA:1", Text.of "PPA:1", [old, new]⟩]
      [⟨Text.of "Last(2, PPA:1)", Text.of "PPA:1", [new, old]⟩] :=
    .each (by decide) rfl (.cons ⟨[new, old], by decide +kernel, by decide +kernel⟩ .nil)
  have hparse : parse (Text.of "Last(2, PPA:1); PPA:2") = .ok ⟨[call], Text.of "; PPA:2"⟩ := by
    rw [parse, scan_eq]
    decide +kernel
  have hyields : YieldsFrom engine m 1 (Text.of "Last(2, PPA:1); PPA:2") inputs := by
    refine ⟨_, _, hparse, .cons ⟨_, hinside, hcall⟩ .nil, .inr ⟨by decide,
      ⟨[⟨Text.of "PPA:2", Text.of "PPA:2", false⟩], []⟩, by decide +kernel, ?_⟩⟩
    rw [series_single (by decide +kernel)]
    decide +kernel
  have hkey : parse (Text.of "PPA:1") = .ok ⟨[], Text.of "PPA:1"⟩ := by decide +kernel
  have hlabels : ∀ c, CallWithin (Text.of "Last(2, PPA:1); PPA:2") c → c.operator ≠ .label :=
    fun c hc => by
      rw [hc.eq_of_single hparse hkey]
      decide
  refine ⟨(hyields.delivers hlabels s ⟨.start 60000 (Clock.still 0), rfl⟩).1, ?_, ?_⟩
  · decide +kernel
  · have hfinite : ∀ x ∈ [old, other], x.time.isFinite = true := by decide +kernel
    exact Slicer.not_aligned_of_lt List.mem_cons_self (List.mem_cons_of_mem _ List.mem_cons_self)
      hfinite (by decide +kernel)

end Expression

end SeriesQuery
