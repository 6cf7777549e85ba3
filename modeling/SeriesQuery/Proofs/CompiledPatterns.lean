import SeriesQuery.Catalog.Predicate

/-!
# Patterns are compiled when they are read

A predicate keeps the texts of its patterns, and their tests are asked for again on every row.
They are there: `LIKE` with a pattern that the library refuses is no predicate, and the chains,
negations and groups around conditions bring in no pattern of their own. So a predicate that was
read has no other patterns than those that compile, and where it is evaluated the case of a missing
test does not occur.
-/

namespace SeriesQuery.Predicate

/-- The patterns in a predicate. -/
def patterns : Predicate → List Text
  | like _ pattern => [pattern]
  | not p => p.patterns
  | and p q => p.patterns ++ q.patterns
  | or p q => p.patterns ++ q.patterns
  | _ => []

/-- The library compiles all patterns in a predicate. -/
def Compiled (lib : RegexLibrary) (p : Predicate) : Prop :=
  ∀ pattern ∈ p.patterns, (Pattern.compile? lib pattern).isSome = true

/-- All predicates that a reader takes have compiled patterns. -/
def Compiles (lib : RegexLibrary) (read : Text → Reading) : Prop :=
  ∀ ⦃t p rest⦄, read t = .ok (p, rest) → p.Compiled lib

variable {lib : RegexLibrary} {p q : Predicate} {read other : Text → Reading}

theorem Compiled.of_patterns_eq_nil (h : p.patterns = []) : p.Compiled lib := by
  intro pattern hpattern
  rw [h] at hpattern
  cases hpattern

theorem compiled_and : (and p q).Compiled lib ↔ p.Compiled lib ∧ q.Compiled lib :=
  List.forall_mem_append

theorem compiled_or : (or p q).Compiled lib ↔ p.Compiled lib ∧ q.Compiled lib :=
  List.forall_mem_append

theorem compiled_not : (not p).Compiled lib ↔ p.Compiled lib := Iff.rfl

theorem patterns_negatedIf (negated : Bool) (p : Predicate) :
    (negatedIf negated p).patterns = p.patterns := by
  cases negated <;> rfl

theorem Compiles.or (h : Compiles lib read) (h' : Compiles lib other) :
    Compiles lib fun t => (read t).or (other t) := by
  intro t p rest hread
  dsimp only at hread
  cases hfirst : read t with
  | ok found =>
      rw [hfirst] at hread
      exact h (hfirst.trans hread)
  | error refusal =>
      rw [hfirst] at hread
      cases refusal with
      | otherForm => exact h' hread
      | refusedPattern more => cases hread

/-- A form without patterns. -/
theorem Compiles.ofOption {form : Text → Option (Predicate × Text)}
    (h : ∀ ⦃t p rest⦄, form t = some (p, rest) → p.patterns = []) :
    Compiles lib fun t => Reading.ofOption (form t) := by
  intro t p rest hread
  dsimp only at hread
  cases hform : form t with
  | none =>
      rw [hform] at hread
      cases hread
  | some found =>
      rw [hform] at hread
      cases hread
      exact .of_patterns_eq_nil (h hform)

theorem patterns_isNull? {t rest : Text} (h : isNull? t = some (p, rest)) : p.patterns = [] := by
  simp only [isNull?, Option.bind_eq_bind, Option.bind_eq_some_iff, Option.pure_def,
    Option.some.injEq, Prod.mk.injEq] at h
  obtain ⟨_, -, _, -, _, -, rfl, -⟩ := h
  exact patterns_negatedIf ..

theorem patterns_oneOf? {t rest : Text} (h : oneOf? t = some (p, rest)) : p.patterns = [] := by
  simp only [oneOf?, Option.bind_eq_bind, Option.bind_eq_some_iff] at h
  obtain ⟨_, -, _, -, h⟩ := h
  split at h
  · simp only [Option.bind_eq_some_iff] at h
    obtain ⟨_, -, h⟩ := h
    split at h
    · cases h
      exact patterns_negatedIf ..
    · cases h
  · cases h

theorem patterns_compare? {t rest : Text} (h : compare? t = some (p, rest)) : p.patterns = [] := by
  simp only [compare?, Option.bind_eq_bind, Option.bind_eq_some_iff, Option.pure_def,
    Option.some.injEq, Prod.mk.injEq] at h
  obtain ⟨_, -, _, -, _, -, rfl, -⟩ := h
  rfl

/-- The one form with a pattern refuses those that are not compiled. -/
theorem compiles_likeReading : Compiles lib (likeReading lib) := by
  intro t p rest hread
  unfold likeReading at hread
  split at hread
  · cases hread
  · split at hread
    · cases hread
    · split at hread
      · next hcompile =>
          cases hread
          intro pattern hpattern
          rw [patterns_negatedIf, patterns, List.mem_singleton] at hpattern
          rw [hpattern]
          exact hcompile
      · cases hread

theorem compiles_condition : Compiles lib (condition lib) := by
  have hlists : Compiles lib fun t => Reading.ofOption ((isNull? t).or (oneOf? t)) := by
    refine .ofOption fun t p rest h => ?_
    rcases Option.or_eq_some_iff.mp h with h | ⟨-, h⟩
    · exact patterns_isNull? h
    · exact patterns_oneOf? h
  exact hlists.or (compiles_likeReading.or (.ofOption fun _ _ _ => patterns_compare?))

section Chain

variable {word : Text} {join : Predicate → Predicate → Predicate}
  (hjoin : ∀ {p q}, p.Compiled lib → q.Compiled lib → (join p q).Compiled lib)
  (h : Compiles lib read)

include hjoin h

theorem compiled_chainFrom {fuel : Nat} {first : Predicate} {t rest : Text}
    (hfirst : first.Compiled lib) (hread : chainFrom word join read fuel first t = .ok (p, rest)) :
    p.Compiled lib := by
  induction fuel generalizing first t with
  | zero =>
      cases hread
      exact hfirst
  | succ fuel ih =>
      rw [chainFrom] at hread
      split at hread
      · cases hread
        exact hfirst
      · split at hread
        · next hnext => exact ih (hjoin hfirst (h hnext)) hread
        · cases hread
          exact hfirst
        · cases hread

theorem Compiles.chain : Compiles lib (chain word join read) := by
  intro t p rest hread
  unfold Predicate.chain at hread
  cases hfirst : read t with
  | error refusal =>
      rw [hfirst] at hread
      cases hread
  | ok found =>
      rw [hfirst] at hread
      exact compiled_chainFrom hjoin h (h hfirst) hread

end Chain

theorem Compiles.junction (h : Compiles lib read) : Compiles lib (junction read) :=
  .chain (fun hp hq => compiled_or.mpr ⟨hp, hq⟩)
    (.chain (fun hp hq => compiled_and.mpr ⟨hp, hq⟩) h)

theorem Compiles.negation (h : Compiles lib read) : Compiles lib (negation read) := by
  intro t p rest hread
  unfold Predicate.negation at hread
  split at hread
  · cases hread
  · next after _ =>
      cases hinner : read after with
      | error refusal =>
          rw [hinner] at hread
          cases hread
      | ok found =>
          rw [hinner] at hread
          cases hread
          exact compiled_not.mpr (h hinner)

theorem Compiles.group (h : Compiles lib read) : Compiles lib (group read) := by
  intro t p rest hread
  unfold Predicate.group at hread
  split at hread
  · next opened =>
      cases hinner : Predicate.junction read (Text.skipSeparators opened) with
      | error refusal =>
          rw [hinner] at hread
          cases hread
      | ok found =>
          rw [hinner] at hread
          dsimp only [Bind.bind, Except.bind] at hread
          split at hread
          · cases hread
            exact h.junction hinner
          · cases hread
  · cases hread

theorem compiles_operand (fuel : Nat) : Compiles lib (operand lib fuel) := by
  induction fuel with
  | zero => exact fun _ _ _ hread => nomatch hread
  | succ fuel ih => exact ih.negation.or (ih.group.or compiles_condition)

/-- A predicate that was read has compiled patterns. -/
theorem compiled_of_parse {t : Text} (h : parse lib t = .ok p) : p.Compiled lib := by
  unfold parse at h
  dsimp only at h
  split at h
  · cases h
    exact .of_patterns_eq_nil rfl
  · split at h
    · cases h
    · cases h
    · next hread =>
        split at h
        · cases h
          exact (compiles_operand _).junction hread
        · cases h

end SeriesQuery.Predicate
