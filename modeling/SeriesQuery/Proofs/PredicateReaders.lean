import SeriesQuery.Proofs.ClosedTexts

/-!
# What predicates are read with

Every reader that a predicate is read with is steady, from the name of a field up to a whole
operand.
-/

namespace SeriesQuery

open Text

/-! ## Names of fields -/

namespace Text

theorem Place.after_bracketed {t : Text} (h : ']' ∉ t) (depth : Nat) :
    Place.after ⟨.bracketed, depth⟩ t = ⟨.bracketed, depth⟩ := by
  induction t with
  | nil => rfl
  | cons c t ih =>
      have hc : c ≠ ']' := fun hc => h (hc ▸ List.mem_cons_self)
      rw [Place.after_cons, show Place.next ⟨.bracketed, depth⟩ c = ⟨.bracketed, depth⟩ by
        simp [Place.next, hc]]
      exact ih fun hmem => h (List.mem_cons_of_mem _ hmem)

theorem IsClosed.bracketed {name : Text} (h : ']' ∉ name) : IsClosed ('[' :: (name ++ [']'])) := by
  intro depth
  rw [Place.after_cons, Place.after_append]
  exact congrArg (Place.after · [']']) (Place.after_bracketed h depth)

theorem steady_takeSome? {p : Char → Bool} (hp : p '\'' = false ∧ p '[' = false ∧ p '(' = false
    ∧ p ')' = false) : Steady (takeSome? p) where
  leaves {t a rest} h := by
    simp only [takeSome?] at h
    split at h
    · cases h
    · cases h
      exact .dropWhile (fun c hc => isPlain_of_class hp hc) t
  append {depth t s} _ hs := by
    simp only [takeSome?, takeWhile_append_stops hp.2.2.2 t hs,
      dropWhile_append_stops hp.2.2.2 t hs]
    split <;> rfl

theorem Steady.or {α : Type} {first second : Text → Option (α × Text)} (h : Steady first)
    (h' : Steady second) : Steady fun t => (first t).or (second t) where
  leaves hread := by
    rcases Option.or_eq_some_iff.mp hread with hfirst | ⟨-, hsecond⟩
    · exact h.leaves hfirst
    · exact h'.leaves hsecond
  append {depth t s} ht hs := by
    rw [h.append ht hs, h'.append ht hs]
    cases first t <;> rfl

end Text

namespace Predicate

/-- The name of a field in square brackets. -/
def bracketed? : Text → Option (Text × Text)
  | '[' :: rest =>
    match takeSome? (· != ']') rest with
    | some (name, ']' :: rest) => some (name, rest)
    | _ => none
  | _ => none

theorem field?_eq (t : Text) : field? t = (bracketed? t).or (identifier? t) := rfl

/-- With a bracket that closes, the name is what is before it. -/
theorem bracketed?_closed {name rest : Text} (h : ']' ∉ name) :
    bracketed? ('[' :: (name ++ ']' :: rest)) = if name = [] then none else some (name, rest) := by
  have hrun : ∀ c ∈ name, (c != ']') = true := by
    intro c hc
    rw [bne_iff_ne]
    rintro rfl
    exact h hc
  have htaken : (name ++ ']' :: rest).takeWhile (· != ']') = name :=
    takeWhile_append_of_head? hrun (by simp)
  have hleft : (name ++ ']' :: rest).dropWhile (· != ']') = ']' :: rest :=
    dropWhile_append_of_head? hrun (by simp)
  simp only [bracketed?, takeSome?, htaken, hleft]
  cases name with
  | nil => rfl
  | cons c name => rfl

/-- A name that is read ends before a bracket. -/
theorem exists_of_bracketed? {t name rest : Text} (h : bracketed? t = some (name, rest)) :
    ']' ∉ name ∧ t = '[' :: (name ++ ']' :: rest) := by
  unfold bracketed? at h
  split at h
  · next t =>
      split at h
      · next name' rest' htake =>
          cases h
          simp only [takeSome?] at htake
          split at htake
          · cases htake
          · injection htake with htake
            injection htake with hname hrest
            refine ⟨fun hmem => ?_, ?_⟩
            · rw [← hname] at hmem
              simpa using List.mem_takeWhile_imp hmem
            · rw [← hname, ← hrest, List.takeWhile_append_dropWhile]
      · cases h
  · cases h

theorem steady_bracketed? : Steady bracketed? where
  leaves {t name rest} h := by
    obtain ⟨hname, rfl⟩ := exists_of_bracketed? h
    exact ⟨_, .bracketed hname, by simp⟩
  append {depth t s} ht hs := by
    cases t with
    | nil =>
        cases s with
        | nil => rfl
        | cons c s =>
            obtain rfl := hs c rfl
            rfl
    | cons c t =>
        by_cases hc : c = '['
        · subst hc
          have hmem : ']' ∈ t := by
            by_contra hmem
            have hopen : Place.after ⟨.bracketed, depth⟩ t = ⟨.plain, 0⟩ := ht
            rw [Place.after_bracketed hmem] at hopen
            cases hopen
          obtain ⟨name, rest, rfl, hname⟩ := List.eq_append_cons_of_mem hmem
          rw [bracketed?_closed hname, List.cons_append, List.append_assoc, List.cons_append,
            bracketed?_closed hname]
          split <;> rfl
        · simp [bracketed?, hc]

theorem steady_field? : Steady field? := by
  have hname : Steady identifier? := steady_takeSome? (by decide)
  exact steady_bracketed?.or hname

/-! ## Values and signs -/

/-- A value in single quotes. -/
def quoted? : Text → Option (Text × Text)
  | '\'' :: rest => quotedTail? rest
  | _ => none

/-- A value without quotes. -/
def bare? (t : Text) : Option (Text × Text) :=
  match t with
  | '-' :: rest => (takeSome? isBareChar rest).map fun (w, rest) => ('-' :: w, rest)
  | _ => takeSome? isBareChar t

theorem value?_eq (t : Text) : value? t = (quoted? t).or (bare? t) := rfl

theorem next_quoted {c : Char} (h : c ≠ '\'') (depth : Nat) :
    Place.next ⟨.quoted, depth⟩ c = ⟨.quoted, depth⟩ := by
  simp [Place.next, h]

/-- Two quotes in a row leave a scan inside the quotes. -/
theorem exists_of_quotedTail? {t value rest : Text} (h : quotedTail? t = some (value, rest)) :
    ∃ taken, t = taken ++ rest
      ∧ ∀ depth, Place.after ⟨.quoted, depth⟩ taken = ⟨.plain, depth⟩ := by
  induction t using quotedTail?.induct generalizing value with
  | case1 => cases h
  | case2 t ih =>
      rw [quotedTail?] at h
      obtain ⟨⟨inner, left⟩, hinner, heq⟩ := Option.map_eq_some_iff.mp h
      cases heq
      obtain ⟨taken, rfl, htaken⟩ := ih hinner
      exact ⟨'\'' :: '\'' :: taken, rfl, htaken⟩
  | case3 c t hne hc =>
      rw [quotedTail?.eq_3 c t hne, if_pos hc] at h
      cases h
      obtain rfl := eq_of_beq hc
      exact ⟨['\''], rfl, fun _ => rfl⟩
  | case4 c t hne hc ih =>
      rw [quotedTail?.eq_3 c t hne, if_neg hc] at h
      obtain ⟨⟨inner, left⟩, hinner, heq⟩ := Option.map_eq_some_iff.mp h
      cases heq
      obtain ⟨taken, rfl, htaken⟩ := ih hinner
      refine ⟨c :: taken, rfl, fun depth => ?_⟩
      rw [Place.after_cons, next_quoted (by simpa using hc)]
      exact htaken depth

/-- A quote at the end of a text is followed by no other. -/
theorem not_quote_append {c : Char} {t s : Text} (hs : Stops s)
    (h : ∀ more, c = '\'' → t = '\'' :: more → False) :
    ∀ more, c = '\'' → t ++ s = '\'' :: more → False := by
  rintro more rfl hmore
  cases t with
  | nil =>
      rw [List.nil_append] at hmore
      rw [hmore] at hs
      exact absurd (hs '\'' rfl) (by decide)
  | cons d t =>
      injection hmore with hd
      exact h t rfl (hd ▸ rfl)

theorem quotedTail?_append {t s : Text} {depth : Nat}
    (ht : Place.after ⟨.quoted, depth⟩ t = ⟨.plain, 0⟩) (hs : Stops s) :
    quotedTail? (t ++ s) = (quotedTail? t).map fun (value, rest) => (value, rest ++ s) := by
  induction t using quotedTail?.induct with
  | case1 => cases ht
  | case2 t ih =>
      rw [List.cons_append, List.cons_append, quotedTail?, quotedTail?, ih ht, Option.map_map,
        Option.map_map]
      rfl
  | case3 c t hne hc =>
      rw [List.cons_append, quotedTail?.eq_3 c _ (not_quote_append hs hne),
        quotedTail?.eq_3 c t hne, if_pos hc, if_pos hc]
      rfl
  | case4 c t hne hc ih =>
      rw [Place.after_cons, next_quoted (by simpa using hc)] at ht
      rw [List.cons_append, quotedTail?.eq_3 c _ (not_quote_append hs hne),
        quotedTail?.eq_3 c t hne, if_neg hc, if_neg hc, ih ht, Option.map_map, Option.map_map]
      rfl

theorem steady_quoted? : Steady quoted? where
  leaves {t value rest} h := by
    unfold quoted? at h
    split at h
    · obtain ⟨taken, rfl, htaken⟩ := exists_of_quotedTail? h
      exact ⟨'\'' :: taken, htaken, rfl⟩
    · cases h
  append {depth t s} ht hs := by
    cases t with
    | nil =>
        cases s with
        | nil => rfl
        | cons c s =>
            obtain rfl := hs c rfl
            rfl
    | cons c t =>
        by_cases hc : c = '\''
        · subst hc
          exact quotedTail?_append ht hs
        · simp [quoted?, hc]

theorem steady_bareChars : Steady (takeSome? isBareChar) := steady_takeSome? (by decide)

theorem steady_bare? : Steady bare? where
  leaves {t value rest} h := by
    unfold bare? at h
    split at h
    · obtain ⟨⟨word, left⟩, hword, heq⟩ := Option.map_eq_some_iff.mp h
      cases heq
      exact .cons (by decide) (steady_bareChars.leaves hword)
    · exact steady_bareChars.leaves h
  append {depth t s} ht hs := by
    cases t with
    | nil =>
        cases s with
        | nil => rfl
        | cons c s =>
            obtain rfl := hs c rfl
            rfl
    | cons c t =>
        by_cases hc : c = '-'
        · subst hc
          have hrest : Settles depth t := ht
          simp only [bare?, List.cons_append, steady_bareChars.append hrest hs, Option.map_map]
          rfl
        · have hbare : ∀ t, bare? (c :: t) = takeSome? isBareChar (c :: t) := by
            intro t
            simp [bare?, hc]
          rw [List.cons_append, hbare, hbare, ← List.cons_append, steady_bareChars.append ht hs]

theorem steady_value? : Steady value? := steady_quoted?.or steady_bare?

theorem sign?_cons_cons (c d : Char) (t : Text) : sign? (c :: d :: t) =
    if c = '<' ∧ d = '>' ∨ c = '!' ∧ d = '=' then some (.notEqual, t)
    else if c = '<' ∧ d = '=' then some (.lessOrEqual, t)
    else if c = '>' ∧ d = '=' then some (.greaterOrEqual, t)
    else if c = '=' then some (.equal, d :: t)
    else if c = '<' then some (.less, d :: t)
    else if c = '>' then some (.greater, d :: t)
    else none := by
  unfold sign?
  split
  all_goals first
    | next heq =>
        cases heq
        simp_all
    | simp_all

theorem sign?_singleton (c : Char) : sign? [c] =
    if c = '=' then some (.equal, []) else if c = '<' then some (.less, [])
    else if c = '>' then some (.greater, []) else none := by
  unfold sign?
  split <;> simp_all

theorem steady_sign? : Steady sign? where
  leaves {t sign rest} h := by
    unfold sign? at h
    split at h
    all_goals cases h
    all_goals first
      | exact .cons (by decide) (.cons (by decide) (.refl _))
      | exact .cons (by decide) (.refl _)
  append {depth t s} _ hs := by
    cases t with
    | nil =>
        cases s with
        | nil => rfl
        | cons c s =>
            obtain rfl := hs c rfl
            rfl
    | cons c t =>
        cases t with
        | nil =>
            cases s with
            | nil => simp
            | cons d s =>
                obtain rfl := hs d rfl
                rw [List.singleton_append, sign?_cons_cons, sign?_singleton]
                simp only [Char.reduceEq, and_false, or_self, if_false]
                split_ifs <;> rfl
        | cons d t =>
            rw [List.cons_append, List.cons_append, sign?_cons_cons, sign?_cons_cons]
            split_ifs <;> rfl

end Predicate

end SeriesQuery
