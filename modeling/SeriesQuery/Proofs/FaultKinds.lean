import SeriesQuery.Engine.Answer

/-!
# Which faults a reading can end in

Reading an expression, resolving its targets and reading the parameters of a call each fail in
their own ways, and applying a function may end the program. The statements here bound the class of
the fault, function by function along the calls, so that what is said of a whole query can tell its
phases apart. What every one of them has in common is that only the caller gives a query up: no text
and no row can make it look as if he had.
-/

namespace SeriesQuery

/-- Every fault of a computation is of one of the listed classes. -/
def FaultsIn {α : Type} (kinds : List FaultKind) (x : Except Fault α) : Prop :=
  ∀ f, x = .error f → f.kind ∈ kinds

namespace FaultsIn

variable {α β : Type} {kinds : List FaultKind}

theorem ok (a : α) : FaultsIn kinds (.ok a) := by
  intro f h
  cases h

theorem error {f : Fault} (h : f.kind ∈ kinds) : FaultsIn kinds (.error f : Except Fault α) := by
  intro g hg
  cases hg
  exact h

theorem bind {x : Except Fault α} {k : α → Except Fault β} (hx : FaultsIn kinds x)
    (hk : ∀ a, FaultsIn kinds (k a)) : FaultsIn kinds (x >>= k) := by
  intro f h
  cases hxe : x with
  | error g =>
      rw [hxe] at h
      cases h
      exact hx f hxe
  | ok a =>
      rw [hxe] at h
      exact hk a f h

theorem map {x : Except Fault α} {g : α → β} (hx : FaultsIn kinds x) :
    FaultsIn kinds (x.map g) := by
  cases x with
  | error f => exact error (hx f rfl)
  | ok a => exact ok (g a)

theorem mono {x : Except Fault α} {more : List FaultKind} (hx : FaultsIn kinds x)
    (hsub : kinds ⊆ more) : FaultsIn more x :=
  fun f h => hsub (hx f h)

theorem ne_error {x : Except Fault α} (hx : FaultsIn kinds x) {f : Fault} (h : f.kind ∉ kinds) :
    x ≠ .error f :=
  fun he => h (hx f he)

end FaultsIn

/-! ## Expressions -/

/-- The classes of faults of an expression that cannot be read. -/
def expressionKinds : List FaultKind := [.parse, .unrecognizedFunction, .parameterCount]

theorem faultsIn_scan (text : Text) : FaultsIn expressionKinds (scan text) := by
  unfold scan
  split
  · exact .ok _
  · next o _ =>
      refine .error ?_
      cases o <;> simp [expressionKinds, Scan.Obstacle.toFault, Fault.kind]

theorem faultsIn_ofText (c : CallText) : FaultsIn expressionKinds (Call.ofText c) := by
  unfold Call.ofText Call.ofFields
  dsimp only
  split
  · exact .error (by simp [expressionKinds, Fault.kind])
  · split
    · exact .error (by simp [expressionKinds, Fault.kind])
    · exact .ok _

theorem faultsIn_callsOf (texts : List CallText) :
    FaultsIn expressionKinds (Expression.callsOf texts) := by
  induction texts with
  | nil => exact .ok _
  | cons c rest ih =>
      unfold Expression.callsOf
      exact .bind (faultsIn_ofText c) fun call => .bind ih fun calls => .ok _

theorem faultsIn_parse (text : Text) : FaultsIn expressionKinds (Expression.parse text) := by
  unfold Expression.parse
  exact .bind (faultsIn_scan _) fun pieces => .bind (faultsIn_callsOf _) fun calls => .ok _

/-! ## Targets -/

/-- The classes of faults of targets that cannot be resolved. -/
def targetKinds : List FaultKind := [.parse, .resolution]

theorem faultsIn_ofParts (text : Text) (take : Option Nat) (table tail : Text) :
    FaultsIn targetKinds (Selection.ofParts text take table tail) := by
  unfold Selection.ofParts
  -- What follows the order of the rows, whichever way the order is read.
  have hrest : ∀ p : Text × Option SortKey, FaultsIn targetKinds
      (if (Text.trim p.1).isEmpty then do
          throw (Fault.missingPredicate text)
          return (⟨table, Text.trim p.1, p.2, (Selection.splitTrailingTop tail).2.or take⟩ :
            Selection)
        else
          return ⟨table, Text.trim p.1, p.2, (Selection.splitTrailingTop tail).2.or take⟩) := by
    intro p
    split
    · exact .bind (.error (by simp [targetKinds, Fault.kind])) fun _ => .ok _
    · exact .ok _
  dsimp only
  split
  · exact .bind (.ok _) hrest
  · split
    · exact .bind (.ok _) hrest
    · exact .bind (.error (by simp [targetKinds, Fault.kind])) hrest

theorem faultsIn_clause {t : Text} {clause : Except Fault Selection}
    (h : Selection.parse? t = some clause) : FaultsIn targetKinds clause := by
  unfold Selection.parse? at h
  dsimp only at h
  split at h
  · injection h with h
    subst h
    split
    · exact faultsIn_ofParts _ _ _ _
    · exact .error (by simp [targetKinds, Fault.kind])
  · split at h
    · injection h with h
      subst h
      split
      · exact faultsIn_ofParts _ _ _ _
      · exact .error (by simp [targetKinds, Fault.kind])
    · cases h

theorem faultsIn_predicate (lib : RegexLibrary) (t : Text) :
    FaultsIn targetKinds (Predicate.parse lib t) := by
  unfold Predicate.parse
  dsimp only
  repeat' split
  all_goals first
    | exact .ok _
    | exact .error (by simp [targetKinds, Fault.kind])

theorem faultsIn_select (c : Catalog) (table predicate : Text) (order : Option SortKey)
    (take : Option Nat) : FaultsIn targetKinds (c.select table predicate order take) := by
  unfold Catalog.select
  split
  · exact .bind (faultsIn_predicate _ _) fun p => .ok _
  · exact .error (by simp [targetKinds, Fault.kind])

theorem faultsIn_resolveToken (catalog : Catalog) (layout : Layout) (token : Text) :
    FaultsIn targetKinds (Resolver.resolveToken catalog layout token) := by
  unfold Resolver.resolveToken
  split
  · next clause hc =>
      exact .bind (faultsIn_clause hc) fun s => .bind (faultsIn_select _ _ _ _ _) fun rows => .ok _
  · split
    · exact .ok _
    · exact .ok _

theorem faultsIn_resolve (catalog : Catalog) (layout : Layout) (text : Text) :
    FaultsIn targetKinds (Resolver.resolve catalog layout text) := by
  unfold Resolver.resolve
  generalize Targets.empty = m
  induction Text.targets text generalizing m with
  | nil => exact .ok _
  | cons token rest ih =>
      unfold Resolver.resolveFrom
      exact .bind (faultsIn_resolveToken _ _ _) fun series => ih _

/-! ## Parameters and functions -/

/-- The classes of faults of a parameter that is there and cannot be read. -/
def parameterKinds : List FaultKind := [.format, .outOfRange, .unresolvedParameter]

/-- The classes of faults of a call whose parameters may be too few. -/
def callKinds : List FaultKind :=
  [.format, .outOfRange, .unresolvedParameter, .parameterCount, .overrun]

theorem parameterKinds_subset_callKinds : parameterKinds ⊆ callKinds := by decide

namespace Parameter

theorem faultsIn_number (t : Text) : FaultsIn parameterKinds (number t) := by
  unfold number
  dsimp only
  split
  · exact .ok _
  · exact .error (by simp [parameterKinds, Fault.kind])

theorem faultsIn_valueOf (scope : Scope) (samples : List Sample) (sliceDefault : Float)
    (name : Text) (default : Option Float) : FaultsIn parameterKinds
      (match scope.valueOf? samples name, default with
      | some value, _ => .ok value
      | none, some value => .ok value
      | none, none =>
        if scope.grouping == .slice then .ok sliceDefault
        else .error (.unresolvedParameter name)) := by
  split
  · exact .ok _
  · exact .ok _
  · split
    · exact .ok _
    · exact .error (by simp [parameterKinds, Fault.kind])

theorem faultsIn_named (scope : Scope) (samples : List Sample) (sliceDefault : Float)
    (parameter : Text) : FaultsIn parameterKinds (named scope samples sliceDefault parameter) := by
  have hrest (p : Text × Option Float) := faultsIn_valueOf scope samples sliceDefault p.1 p.2
  unfold named
  dsimp only
  split
  · exact .bind (faultsIn_number _) fun x => .bind (.ok _) hrest
  · exact .bind (.ok _) hrest

theorem faultsIn_float (scope : Scope) (samples : List Sample) (fromZero : Bool) (t : Text) :
    FaultsIn parameterKinds (float scope samples fromZero t) := by
  unfold float
  have hrest : ∀ value : Float, FaultsIn parameterKinds
      (if fromZero && value < 0.0 then .error (.belowZero (Text.trim t)) else .ok value) := by
    intro value
    split
    · exact .error (by simp [parameterKinds, Fault.kind])
    · exact .ok _
  dsimp only
  split
  · exact .bind (.ok _) hrest
  · exact .bind (faultsIn_named _ _ _ _) hrest

theorem faultsIn_percentage (fromZero : Bool) (t : Text) :
    FaultsIn parameterKinds (percentage fromZero t) := by
  unfold percentage
  refine .bind (faultsIn_number _) fun percent => ?_
  dsimp only
  generalize Text.trim t = digits
  by_cases h : (if fromZero then 0.0 ≤ percent else 0.0 < percent) && percent ≤ 100.0
  · rw [if_pos h]
    exact .ok _
  · rw [if_neg h]
    exact .error (by simp [parameterKinds, Fault.kind])

theorem faultsIn_count (scope : Scope) (samples : List Sample) (t : Text) :
    FaultsIn parameterKinds (count scope samples t) := by
  unfold count
  dsimp only
  split
  · exact .ok _
  · split
    · exact .bind (faultsIn_percentage _ _) fun percent => .ok _
    · have hrest : ∀ n : Int, FaultsIn parameterKinds
          (if n < 1 then .error (.countBelowOne (Text.trim t)) else .ok n.toNat) := by
        intro n
        split
        · exact .error (by simp [parameterKinds, Fault.kind])
        · exact .ok _
      split
      · exact .bind (.ok _) fun value => hrest _
      · exact .bind (faultsIn_named _ _ _ _) fun value => hrest _

theorem faultsIn_integer (t : Text) : FaultsIn parameterKinds (integer t) := by
  unfold integer
  dsimp only
  repeat' split
  all_goals first
    | exact .ok _
    | exact .error (by simp [parameterKinds, Fault.kind])

theorem faultsIn_flag (t : Text) : FaultsIn parameterKinds (flag t) := by
  unfold flag
  dsimp only
  repeat' split
  all_goals first
    | exact .ok _
    | exact .error (by simp [parameterKinds, Fault.kind])

theorem faultsIn_optional {α : Type} {read : Text → Except Fault α}
    (h : ∀ t, FaultsIn parameterKinds (read t)) (parameters : List Text) (index : Nat)
    (default : α) : FaultsIn parameterKinds (optional read parameters index default) := by
  unfold optional
  split
  · exact h _
  · exact .ok _

theorem faultsIn_required (f : Operator) (parameters : List Text) (index : Nat) :
    FaultsIn callKinds (required f parameters index) := by
  unfold required
  split
  · exact .ok _
  · exact .error (by simp [callKinds, Fault.kind])

theorem faultsIn_required_of_lt (f : Operator) {parameters : List Text} {index : Nat}
    (h : index < parameters.length) : FaultsIn parameterKinds (required f parameters index) := by
  unfold required
  rw [List.getElem?_eq_getElem h]
  exact .ok _

end Parameter

theorem TimeUnit.faultsIn_read (t : Text) : FaultsIn parameterKinds (TimeUnit.read t) := by
  unfold TimeUnit.read
  dsimp only
  split
  · exact .ok _
  · exact .error (by simp [parameterKinds, Fault.kind])

theorem AngleUnit.faultsIn_read (t : Text) : FaultsIn parameterKinds (AngleUnit.read t) := by
  unfold AngleUnit.read
  dsimp only
  split
  · exact .ok _
  · exact .error (by simp [parameterKinds, Fault.kind])

section Functions

variable {kinds : List FaultKind} (hkinds : parameterKinds ⊆ kinds) (f : Operator)
  (parameters : List Text) (scope : Scope) (samples : List Sample)

include hkinds

theorem faultsIn_operand (h : FaultsIn kinds (Parameter.required f parameters 0)) :
    FaultsIn kinds (operand f parameters scope samples) := by
  unfold operand
  exact .bind h fun t => (Parameter.faultsIn_float _ _ _ _).mono hkinds

theorem faultsIn_ranking (h : FaultsIn kinds (Parameter.required f parameters 0)) :
    FaultsIn kinds (ranking f parameters scope samples) := by
  have hflag := Parameter.faultsIn_optional Parameter.faultsIn_flag parameters 1 true
  unfold ranking
  exact .bind h fun t => .bind ((Parameter.faultsIn_count _ _ _).mono hkinds) fun n =>
    .bind (hflag.mono hkinds) fun normalize => .ok _

theorem faultsIn_range (hlow : FaultsIn kinds (Parameter.required f parameters 0))
    (hhigh : FaultsIn kinds (Parameter.required f parameters 1)) :
    FaultsIn kinds (ValueRange.read f parameters scope samples) := by
  have hfloat : ∀ t, FaultsIn kinds (Parameter.float scope samples false t) := fun t =>
    (Parameter.faultsIn_float _ _ _ _).mono hkinds
  have hflag : ∀ i b, FaultsIn kinds (Parameter.optional Parameter.flag parameters i b) :=
    fun i b => (Parameter.faultsIn_optional Parameter.faultsIn_flag parameters i b).mono hkinds
  unfold ValueRange.read
  exact .bind hlow fun t => .bind (hfloat t) fun low => .bind hhigh fun t =>
    .bind (hfloat t) fun high => .bind (hflag _ _) fun lowInclusive =>
      .bind (hflag _ _) fun _ => .ok _

/-- A function that is applied fails over its parameters, because one cannot be read or as looking
for those that it requires fails; a percentile may also read past the end of the samples. -/
theorem faultsIn_apply_of (hoverrun : f = .percentile → .overrun ∈ kinds)
    (hrequired : ∀ i < f.signature.required, FaultsIn kinds (Parameter.required f parameters i)) :
    FaultsIn kinds (f.apply parameters scope samples) := by
  have hoptional : ∀ {α : Type} {read : Text → Except Fault α},
      (∀ t, FaultsIn parameterKinds (read t)) →
        ∀ i d, FaultsIn kinds (Parameter.optional read parameters i d) :=
    fun h i d => (Parameter.faultsIn_optional h parameters i d).mono hkinds
  have hflag := hoptional Parameter.faultsIn_flag
  have htime := hoptional TimeUnit.faultsIn_read
  have hangle := hoptional AngleUnit.faultsIn_read
  have hinteger := hoptional Parameter.faultsIn_integer
  have hcount := hoptional (Parameter.faultsIn_count scope samples)
  have hoperand := faultsIn_operand hkinds f parameters scope samples
  have hranking := faultsIn_ranking hkinds f parameters scope samples
  have hrange := faultsIn_range hkinds f parameters scope samples
  cases f with
  | add | subtract | multiply | divide =>
      exact .bind (hoperand (hrequired 0 (by decide))) fun x => .ok _
  | round => exact .bind (hinteger _ _) fun decimals => .ok _
  | standardDeviation | filterNaN => exact .bind (hflag _ _) fun b => .ok _
  | top | bottom | random => exact .bind (hranking (hrequired 0 (by decide))) fun p => .ok _
  | first | last => exact .bind (hcount _ _) fun size => .ok _
  | percentile =>
      refine .bind (hrequired 0 (by decide)) fun t =>
        .bind ((Parameter.faultsIn_percentage _ _).mono hkinds) fun p => ?_
      split
      · exact .error (hoverrun rfl)
      · exact .ok _
  | timeDifference | derivative | timeIntegration => exact .bind (htime _ _) fun unit => .ok _
  | interval =>
      exact .bind (htime _ _) fun unit => .bind (hrequired 0 (by decide)) fun t =>
        .bind ((Parameter.faultsIn_float _ _ _ _).mono hkinds) fun span => .ok _
  | includeRange | excludeRange =>
      exact .bind (hrange (hrequired 0 (by decide)) (hrequired 1 (by decide))) fun range => .ok _
  | unwrapAngle | wrapAngle => exact .bind (hangle _ _) fun unit => .ok _
  | average | minimum | maximum | total | range | count | distinct | absoluteValue | floor
  | ceiling | truncate | median | mode | difference | label => exact .ok _

/-- A function with all parameters that it requires fails because one cannot be read; a percentile
may also read past the end. -/
theorem faultsIn_apply_of_length (hoverrun : f = .percentile → .overrun ∈ kinds)
    (h : f.signature.required ≤ parameters.length) :
    FaultsIn kinds (f.apply parameters scope samples) :=
  faultsIn_apply_of hkinds f parameters scope samples hoverrun fun _ hi =>
    (Parameter.faultsIn_required_of_lt f (Nat.lt_of_lt_of_le hi h)).mono hkinds

end Functions

/-- A function that is applied fails over its parameters or reads past the end. -/
theorem faultsIn_apply (f : Operator) (parameters : List Text) (scope : Scope)
    (samples : List Sample) : FaultsIn callKinds (f.apply parameters scope samples) :=
  faultsIn_apply_of parameterKinds_subset_callKinds f parameters scope samples (fun _ => by decide)
    fun i _ => Parameter.faultsIn_required f parameters i

/-! ## Frames of requests -/

/-- The classes of faults of a window or an interval that cannot be read. -/
def frameKinds : List FaultKind := [.format, .outOfRange]

theorem Moment.faultsIn_read (m : Moment) : FaultsIn frameKinds m.read := by
  cases m with
  | millis x => exact .ok _
  | text t =>
      unfold Moment.read TimeRange.bound
      dsimp only
      split
      · exact .ok _
      · split
        · exact .ok _
        · exact .error (by simp [frameKinds, Fault.kind])

theorem Request.faultsIn_range (r : Request) : FaultsIn frameKinds r.range := by
  unfold Request.range
  refine .bind (Moment.faultsIn_read _) fun start => .bind (Moment.faultsIn_read _) fun finish => ?_
  unfold TimeRange.ofBounds
  split
  · exact .error (by simp [frameKinds, Fault.kind])
  · exact .ok _

theorem Duration.faultsIn_parse (t : Text) : FaultsIn frameKinds (Duration.parse t) := by
  unfold Duration.parse
  dsimp only
  split
  · split
    · split
      · exact .ok _
      · exact .error (by simp [frameKinds, Fault.kind])
    · exact .error (by simp [frameKinds, Fault.kind])
  · exact .error (by simp [frameKinds, Fault.kind])

theorem Request.faultsIn_resolution (r : Request) : FaultsIn frameKinds r.resolution := by
  unfold Request.resolution
  split
  · exact .ok _
  · exact .map (Duration.faultsIn_parse _)

theorem Request.faultsIn_frame (r : Request) : FaultsIn frameKinds r.frame := by
  unfold Request.frame
  exact .bind r.faultsIn_range fun range => .bind r.faultsIn_resolution fun resolution => .ok _

end SeriesQuery
