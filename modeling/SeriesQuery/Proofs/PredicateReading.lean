import SeriesQuery.Proofs.PredicateReaders

/-!
# Predicates with something behind them

A condition on one field is read by steady readers in a row. The readers of chains, negations and
groups call each other to a bound that the length of the text sets, and the text grows when
something is put behind it; so here two readers are compared, one of the text alone and one of the
text with what stops it, under bounds of their own. `Agree` is that comparison, for texts up to a
length, and it is carried from operands to chains and groups of them, and from there to operands
one character longer.
-/

namespace SeriesQuery

open Text

/-! ## Conditions -/

namespace Text

theorem Steady.optionally {word : Text → Option Text} (h : SteadyWord word) :
    Steady fun t => some (match word t with
      | some rest => (true, rest)
      | none => (false, t)) where
  leaves {t a rest} hread := by
    split at hread
    · next hword =>
        cases hread
        exact h.word_leaves hword
    · cases hread
      exact .refl t
  append {depth t s} ht hs := by
    rw [h.word_append ht hs]
    cases word t <;> rfl

/-- Parentheses around closed text are closed. -/
theorem Leaves.parenthesised {t rest : Text} (h : Leaves t (')' :: rest)) :
    Leaves ('(' :: t) rest := by
  obtain ⟨taken, htaken, rfl⟩ := h
  refine ⟨'(' :: (taken ++ [')']), fun depth => ?_, by simp⟩
  rw [Place.after_cons, Place.after_append]
  exact congrArg (Place.after · [')']) (htaken (depth + 1))

/-- What is between parentheses, with separators around it. -/
def parens? {α : Type} (inner : Text → Option (α × Text)) (t : Text) : Option (α × Text) :=
  match skipSeparators t with
  | '(' :: rest =>
    (inner rest).bind fun (a, rest) =>
      match skipSeparators rest with
      | ')' :: rest => some (a, rest)
      | _ => none
  | _ => none

/-- Inside a parenthesis something is left of a text that settles. -/
theorem exists_cons_skipSeparators {depth : Nat} {t : Text} (h : Settles (depth + 1) t) :
    ∃ c rest, skipSeparators t = c :: rest := by
  cases hskip : skipSeparators t with
  | nil =>
      have hnil := (leaves_skipSeparators t).settles h
      rw [hskip] at hnil
      exact absurd hnil.depth_eq_zero (Nat.succ_ne_zero depth)
  | cons c rest => exact ⟨c, rest, rfl⟩

theorem Steady.parens {α : Type} {inner : Text → Option (α × Text)} (h : Steady inner) :
    Steady (parens? inner) where
  leaves {t a rest} hread := by
    unfold parens? at hread
    split at hread
    · next opened hopen =>
        obtain ⟨⟨b, middle⟩, hinner, hclose⟩ := Option.bind_eq_some_iff.mp hread
        dsimp only at hclose
        split at hclose
        · next closed hskip =>
            cases hclose
            have hlast := leaves_skipSeparators middle
            rw [hskip] at hlast
            have hfirst := leaves_skipSeparators t
            rw [hopen] at hfirst
            exact hfirst.trans ((h.leaves hinner).trans hlast).parenthesised
        · cases hclose
    · cases hread
  append {depth t s} ht hs := by
    unfold parens?
    rw [skipSeparators_append hs]
    have hskipped := (leaves_skipSeparators t).settles ht
    cases hskip : skipSeparators t with
    | nil =>
        cases s with
        | nil => rfl
        | cons c s =>
            obtain rfl := hs c rfl
            rfl
    | cons c opened =>
        by_cases hc : c = '('
        · subst hc
          rw [hskip] at hskipped
          have hopened : Settles (depth + 1) opened := hskipped
          simp only [List.cons_append, h.append hopened hs]
          cases hinner : inner opened with
          | none => rfl
          | some found =>
              have hleft := (h.leaves hinner).settles hopened
              obtain ⟨d, closed, hclosed⟩ := exists_cons_skipSeparators hleft
              simp only [Option.map_some, Option.bind_some, skipSeparators_append hs, hclosed,
                List.cons_append]
              by_cases hd : d = ')'
              · subst hd
                rfl
              · simp [hd]
        · simp [hc]

end Text

namespace Predicate

theorem steadyWord_notWord : SteadyWord (afterWord? notWord) := steadyWord_afterWord? ⟨rfl⟩

theorem steady_isNull? : Steady isNull? := by
  have hnot : SteadyWord fun t => (afterWord? notWord t).bind afterSeparators? :=
    steadyWord_notWord.bind steadyWord_afterSeparators?
  have hnull : SteadyWord (afterWord? nullWord) := steadyWord_afterWord? ⟨rfl⟩
  have his : SteadyWord (afterSetOffWord? isWord) := steadyWord_afterSetOffWord? ⟨rfl⟩
  have h := steady_field?.bind fun field => his.andThen <| (Steady.optionally hnot).bind
    fun negated => hnull.andThen (Steady.pure (negatedIf negated (isNull field)))
  exact h

theorem leaves_moreValues (fuel : Nat) (t : Text) : Leaves t (moreValues fuel t).2 := by
  induction fuel generalizing t with
  | zero => exact .refl t
  | succ fuel ih =>
      rw [moreValues]
      split
      · next rest hskip =>
          have hcomma := leaves_skipSeparators t
          rw [hskip] at hcomma
          split
          · next value left hvalue =>
              have hleft := steady_value?.skip.leaves hvalue
              exact hcomma.trans (.cons (by decide) (hleft.trans (ih left)))
          · exact .refl t
      · exact .refl t

theorem length_moreValues_step {t rest value left : Text} (hskip : skipSeparators t = ',' :: rest)
    (hvalue : value? (skipSeparators rest) = some (value, left)) : left.length < t.length := by
  have hcomma := (leaves_skipSeparators t).length_le
  have hleft := (steady_value?.skip.leaves hvalue).length_le
  rw [hskip, List.length_cons] at hcomma
  omega

theorem moreValues_append {fuel fuel' depth : Nat} {t s : Text} (hfuel : t.length ≤ fuel)
    (hfuel' : t.length ≤ fuel') (ht : Settles depth t) (hs : Stops s) :
    moreValues fuel' (t ++ s) = ((moreValues fuel t).1, (moreValues fuel t).2 ++ s) := by
  induction fuel generalizing fuel' t with
  | zero =>
      obtain rfl := List.length_eq_zero_iff.mp (Nat.le_zero.mp hfuel)
      cases fuel' with
      | zero => rfl
      | succ fuel' =>
          cases s with
          | nil => rfl
          | cons c s =>
              obtain rfl := hs c rfl
              rfl
  | succ fuel ih =>
      have hrest := (leaves_skipSeparators t).settles ht
      cases fuel' with
      | zero =>
          obtain rfl := List.length_eq_zero_iff.mp (Nat.le_zero.mp hfuel')
          rfl
      | succ fuel' =>
          rw [moreValues, moreValues, skipSeparators_append hs]
          cases hskip : skipSeparators t with
          | nil =>
              cases s with
              | nil => rfl
              | cons c s =>
                  obtain rfl := hs c rfl
                  rfl
          | cons c rest =>
              by_cases hc : c = ','
              · subst hc
                rw [hskip] at hrest
                have hafter : Settles depth rest := hrest
                simp only [List.cons_append, steady_value?.skip.append hafter hs]
                cases hvalue : value? (skipSeparators rest) with
                | none => rfl
                | some found =>
                    have hlength := length_moreValues_step hskip hvalue
                    have hleft := (steady_value?.skip.leaves hvalue).settles hafter
                    simp only [Option.map_some]
                    rw [ih (by omega) (by omega) hleft]
              · simp [hc]

theorem steady_moreValues : Steady fun t => some (moreValues t.length t) where
  leaves {t values rest} h := by
    have hrest : (moreValues t.length t).2 = rest := congrArg Prod.snd (Option.some.inj h)
    exact hrest ▸ leaves_moreValues ..
  append {depth t s} ht hs := by
    rw [moreValues_append (Nat.le_refl t.length) (by simp) ht hs]
    rfl

/-- The values between the parentheses of a list. -/
def valueList? (t : Text) : Option (List Text × Text) :=
  (value? (skipSeparators t)).bind fun (first, rest) =>
    (some (moreValues rest.length rest)).bind fun (values, rest) => some (first :: values, rest)

theorem steady_valueList? : Steady valueList? := by
  have h := steady_value?.skip.bind fun first => steady_moreValues.bind fun values =>
    Steady.pure (first :: values)
  exact h

theorem oneOf?_eq (t : Text) : oneOf? t = (field? t).bind fun (field, rest) =>
    (some (optionalNot rest)).bind fun (negated, rest) =>
      (afterSpacedWord? inWord rest).bind fun rest =>
        (parens? valueList? rest).bind fun (values, rest) =>
          some (negatedIf negated (oneOf field values), rest) := by
  simp only [oneOf?, parens?, valueList?]
  cases field? t with
  | none => rfl
  | some found =>
      simp only [Option.bind_some, Option.bind_eq_bind]
      cases afterSpacedWord? inWord (optionalNot found.2).2 with
      | none => rfl
      | some rest =>
          simp only [Option.bind_some]
          cases skipSeparators rest with
          | nil => rfl
          | cons c rest =>
              by_cases hc : c = '('
              · subst hc
                simp only
                cases value? (skipSeparators rest) with
                | none => rfl
                | some first =>
                    simp only [Option.bind_some]
                    split <;> simp_all
              · simp [hc]

theorem steady_optionalNot : Steady fun t => some (optionalNot t) :=
  Steady.optionally (steadyWord_afterSpacedWord? ⟨rfl⟩)

theorem steady_oneOf? : Steady oneOf? := by
  have hin : SteadyWord (afterSpacedWord? inWord) := steadyWord_afterSpacedWord? ⟨rfl⟩
  have h := steady_field?.bind fun field => steady_optionalNot.bind fun negated => hin.andThen <|
    steady_valueList?.parens.bind fun values => Steady.pure (negatedIf negated (oneOf field values))
  rw [funext oneOf?_eq]
  exact h

theorem steady_likeHead? : Steady fun t => (likeHead? t).map fun (field, negated, rest) =>
    ((field, negated), rest) := by
  have hlike : SteadyWord (afterSetOffWord? likeWord) := steadyWord_afterSetOffWord? ⟨rfl⟩
  have h := steady_field?.bind fun field => steady_optionalNot.bind fun negated => hlike.andThen <|
    Steady.pure (field, negated)
  have heq : (fun t => (likeHead? t).map fun (field, negated, rest) => ((field, negated), rest))
      = fun t => (field? t).bind fun (field, rest) => (some (optionalNot rest)).bind
        fun (negated, rest) => (afterSetOffWord? likeWord rest).bind
          fun rest => some ((field, negated), rest) := by
    funext t
    simp only [likeHead?]
    cases field? t with
    | none => rfl
    | some found => 
      simp only [Option.bind_some, Option.bind_eq_bind]
      cases afterSetOffWord? likeWord (optionalNot found.2).2 <;> rfl
  rw [heq]
  exact h

theorem steady_compare? : Steady compare? := by
  have h := steady_field?.bind fun field => steady_sign?.skip.bind fun sign =>
    steady_value?.skip.bind fun value => Steady.pure (compare field sign value)
  exact h

/-! ## Readings -/

/-- The reading of a text with more left over. -/
def Reading.leaving (s : Text) : Reading → Reading
  | .ok (p, rest) => .ok (p, rest ++ s)
  | .error (.refusedPattern rest) => .error (.refusedPattern (rest ++ s))
  | .error .otherForm => .error .otherForm

/-- A reader takes closed text, and from shorter text than `bound` that settles a second one takes
the same whatever stops it. -/
structure Agree (bound : Nat) (read read' : Text → Reading) : Prop where
  leaves : ∀ {t p rest}, read t = .ok (p, rest) → Leaves t rest
  append : ∀ {depth t s}, t.length < bound → Settles depth t → Stops s →
    read' (t ++ s) = (read t).leaving s

section Agree

variable {bound : Nat} {read read' : Text → Reading}

theorem Agree.or {other other' : Text → Reading} (h : Agree bound read read')
    (h' : Agree bound other other') :
    Agree bound (fun t => (read t).or (other t)) fun t => (read' t).or (other' t) where
  leaves {t p rest} hread := by
    cases hfirst : read t with
    | ok found =>
        rw [hfirst] at hread
        exact h.leaves (hfirst.trans hread)
    | error refusal =>
        rw [hfirst] at hread
        cases refusal with
        | otherForm => exact h'.leaves hread
        | refusedPattern more => cases hread
  append {depth t s} hlength ht hs := by
    rw [h.append hlength ht hs, h'.append hlength ht hs]
    cases read t with
    | ok found => rfl
    | error refusal => cases refusal <;> rfl

theorem Agree.ofOption (bound : Nat) {form : Text → Option (Predicate × Text)} (h : Steady form) :
    Agree bound (fun t => Reading.ofOption (form t)) fun t => Reading.ofOption (form t) where
  leaves {t p rest} hread := by
    cases hform : form t with
    | none =>
        rw [hform] at hread
        cases hread
    | some found =>
        rw [hform] at hread
        cases hread
        exact h.leaves hform
  append {depth t s} _ ht hs := by
    rw [h.append ht hs]
    cases form t <;> rfl

theorem likeHead?_append {depth : Nat} {t s : Text} (ht : Settles depth t) (hs : Stops s) :
    likeHead? (t ++ s) = (likeHead? t).map fun (field, negated, rest) =>
      (field, negated, rest ++ s) := by
  have h := steady_likeHead?.append ht hs
  cases hhead : likeHead? t with
  | none =>
      rw [hhead] at h
      exact Option.map_eq_none_iff.mp h
  | some found =>
      rw [hhead] at h
      obtain ⟨⟨field, negated, rest⟩, hfound, heq⟩ := Option.map_eq_some_iff.mp h
      injection heq with heq hrest
      injection heq with hfield hnegated
      rw [hfound, hfield, hnegated, hrest]
      rfl

theorem agree_likeReading (lib : RegexLibrary) (bound : Nat) :
    Agree bound (likeReading lib) (likeReading lib) where
  leaves {t p rest} hread := by
    unfold likeReading at hread
    split at hread
    · cases hread
    · next hhead =>
        have hleft := steady_likeHead?.leaves (congrArg (Option.map _) hhead)
        split at hread
        · cases hread
        · next hvalue =>
            split at hread
            · cases hread
              exact hleft.trans (steady_value?.leaves hvalue)
            · cases hread
  append {depth t s} _ ht hs := by
    unfold likeReading
    rw [likeHead?_append ht hs]
    cases hhead : likeHead? t with
    | none => rfl
    | some found =>
        have hleft := steady_likeHead?.leaves (congrArg (Option.map _) hhead)
        simp only [Option.map_some, steady_value?.append (hleft.settles ht) hs]
        cases value? found.2.2 with
        | none => rfl
        | some value =>
            simp only [Option.map_some]
            split <;> rfl

theorem agree_condition (lib : RegexLibrary) (bound : Nat) :
    Agree bound (condition lib) (condition lib) := by
  have hlists := Agree.ofOption bound (steady_isNull?.or steady_oneOf?)
  have h := hlists.or ((agree_likeReading lib bound).or (Agree.ofOption bound steady_compare?))
  exact h

/-! ## Chains and groups -/

theorem length_afterSeparators? {t rest : Text} (h : afterSeparators? t = some rest) :
    rest.length < t.length := by
  cases t with
  | nil => cases h
  | cons c t =>
      rw [afterSeparators?] at h
      split at h
      · cases h
        exact Nat.lt_succ_of_le (leaves_skipSeparators t).length_le
      · cases h

section Chain

variable {word : Text} {join : Predicate → Predicate → Predicate}
  (hword : IsLetters word) (h : Agree bound read read')

include hword

theorem leaves_afterSetOffWord? {t rest : Text} (hrest : afterSetOffWord? word t = some rest) :
    Leaves t rest ∧ rest.length < t.length := by
  obtain ⟨middle, hmiddle, hlast⟩ := Option.bind_eq_some_iff.mp hrest
  have hspaced := (steadyWord_afterSpacedWord? hword).word_leaves hmiddle
  exact ⟨(steadyWord_afterSetOffWord? hword).word_leaves hrest,
    Nat.lt_of_lt_of_le (length_afterSeparators? hlast) hspaced.length_le⟩

include h

theorem leaves_chainFrom {fuel : Nat} {first p : Predicate} {t rest : Text}
    (hread : chainFrom word join read fuel first t = .ok (p, rest)) : Leaves t rest := by
  induction fuel generalizing first t with
  | zero =>
      cases hread
      exact .refl _
  | succ fuel ih =>
      rw [chainFrom] at hread
      split at hread
      · cases hread
        exact .refl _
      · next after hafter =>
          have hleft := (leaves_afterSetOffWord? hword hafter).1
          split at hread
          · next hnext => exact hleft.trans ((h.leaves hnext).trans (ih hread))
          · cases hread
            exact .refl _
          · cases hread

theorem chainFrom_append {fuel fuel' depth : Nat} {first : Predicate} {t s : Text}
    (hfuel : t.length ≤ fuel) (hfuel' : t.length ≤ fuel') (hlength : t.length < bound)
    (ht : Settles depth t) (hs : Stops s) :
    chainFrom word join read' fuel' first (t ++ s)
      = (chainFrom word join read fuel first t).leaving s := by
  induction fuel generalizing fuel' first t with
  | zero =>
      obtain rfl := List.length_eq_zero_iff.mp (Nat.le_zero.mp hfuel)
      cases fuel' with
      | zero => rfl
      | succ fuel' => 
          rw [chainFrom.eq_2, (steadyWord_afterSetOffWord? hword).word_append ht hs]
          rfl
  | succ fuel ih =>
      cases fuel' with
      | zero =>
          obtain rfl := List.length_eq_zero_iff.mp (Nat.le_zero.mp hfuel')
          rfl
      | succ fuel' =>
          rw [chainFrom, chainFrom, (steadyWord_afterSetOffWord? hword).word_append ht hs]
          cases hafter : afterSetOffWord? word t with
          | none => rfl
          | some rest =>
              obtain ⟨hleaves, hshorter⟩ := leaves_afterSetOffWord? hword hafter
              have hrest := hleaves.settles ht
              simp only [Option.map_some, h.append (by omega) hrest hs]
              cases hnext : read rest with
              | error refusal => cases refusal <;> rfl
              | ok found =>
                  have hleft := h.leaves hnext
                  have hle := hleft.length_le
                  exact ih (by omega) (by omega) (by omega) (hleft.settles hrest)

theorem Agree.chain : Agree bound (chain word join read) (chain word join read') where
  leaves {t p rest} hread := by
    unfold Predicate.chain at hread
    cases hfirst : read t with
    | error refusal =>
        rw [hfirst] at hread
        cases hread
    | ok found =>
        rw [hfirst] at hread
        exact (h.leaves hfirst).trans (leaves_chainFrom hword h hread)
  append {depth t s} hlength ht hs := by
    unfold Predicate.chain
    rw [h.append hlength ht hs]
    cases hfirst : read t with
    | error refusal => cases refusal <;> rfl
    | ok found =>
        have hleft := h.leaves hfirst
        have hle := hleft.length_le
        exact chainFrom_append hword h (Nat.le_refl _) (by simp) (by omega) (hleft.settles ht) hs

end Chain

theorem Agree.junction (h : Agree bound read read') :
    Agree bound (junction read) (junction read') :=
  Agree.chain ⟨rfl⟩ (Agree.chain ⟨rfl⟩ h)

theorem Agree.negation (h : Agree bound read read') :
    Agree (bound + 1) (negation read) (negation read') where
  leaves {t p rest} hread := by
    unfold Predicate.negation at hread
    split at hread
    · cases hread
    · next after hafter =>
        have hword := (steadyWord_notWord.bind steadyWord_afterSeparators?).word_leaves hafter
        cases hinner : read after with
        | error refusal =>
            rw [hinner] at hread
            cases hread
        | ok found =>
            rw [hinner] at hread
            cases hread
            exact hword.trans (h.leaves hinner)
  append {depth t s} hlength ht hs := by
    have hnot := steadyWord_notWord.bind steadyWord_afterSeparators?
    unfold Predicate.negation
    rw [hnot.word_append ht hs]
    cases hafter : (afterWord? notWord t).bind afterSeparators? with
    | none => rfl
    | some after =>
        have hleft := hnot.word_leaves hafter
        obtain ⟨middle, hmiddle, hlast⟩ := Option.bind_eq_some_iff.mp hafter
        have hle := (steadyWord_notWord.word_leaves hmiddle).length_le
        have hlt := length_afterSeparators? hlast
        simp only [Option.map_some, h.append (by omega) (hleft.settles ht) hs]
        cases read after with
        | ok found => rfl
        | error refusal => cases refusal <;> rfl

theorem Agree.group (h : Agree bound read read') :
    Agree (bound + 1) (group read) (group read') where
  leaves {t p rest} hread := by
    unfold Predicate.group at hread
    split at hread
    · next opened =>
        cases hinner : Predicate.junction read (skipSeparators opened) with
        | error refusal =>
            rw [hinner] at hread
            cases hread
        | ok found =>
            rw [hinner] at hread
            have hinside := (leaves_skipSeparators opened).trans (h.junction.leaves hinner)
            have hlast := leaves_skipSeparators found.2
            dsimp only [Bind.bind, Except.bind] at hread
            split at hread
            · next hskip =>
                cases hread
                rw [hskip] at hlast
                exact (hinside.trans hlast).parenthesised
            · cases hread
    · cases hread
  append {depth t s} hlength ht hs := by
    cases t with
    | nil =>
        cases s with
        | nil => rfl
        | cons c s =>
            obtain rfl := hs c rfl
            rfl
    | cons c opened =>
        by_cases hc : c = '('
        · subst hc
          have hopened : Settles (depth + 1) opened := ht
          have hskipped := leaves_skipSeparators opened
          have hle := hskipped.length_le
          have hshorter : (skipSeparators opened).length < bound := by
            rw [List.length_cons] at hlength
            omega
          simp only [List.cons_append, Predicate.group, skipSeparators_append hs,
            h.junction.append hshorter (hskipped.settles hopened) hs]
          cases hinner : Predicate.junction read (skipSeparators opened) with
          | error refusal => cases refusal <;> rfl
          | ok found =>
              have hinside := hskipped.trans (h.junction.leaves hinner)
              obtain ⟨d, closed, hclosed⟩ := exists_cons_skipSeparators (hinside.settles hopened)
              simp only [Reading.leaving, Bind.bind, Except.bind, skipSeparators_append hs, hclosed,
                List.cons_append]
              by_cases hd : d = ')'
              · subst hd
                rfl
              · simp [hd]
        · simp [Predicate.group, hc, Reading.leaving]

end Agree

/-- Whatever the bounds, operands that are shorter are read alike. -/
theorem agree_operand (lib : RegexLibrary) (n n' : Nat) :
    Agree (min n n') (operand lib n) (operand lib n') := by
  have hstep : ∀ {bound n n' : Nat}, Agree bound (operand lib n) (operand lib n') →
      Agree (bound + 1) (operand lib (n + 1)) (operand lib (n' + 1)) := by
    intro bound n n' h
    exact h.negation.or (h.group.or (agree_condition lib (bound + 1)))
  induction n generalizing n' with
  | zero => exact ⟨nofun, fun hlength => by simp at hlength⟩
  | succ n ih =>
      cases n' with
      | zero => exact ⟨(hstep (ih 0)).leaves, fun hlength => by simp at hlength⟩
      | succ n' =>
          rw [Nat.add_min_add_right]
          exact hstep (ih n')

end Predicate

end SeriesQuery
