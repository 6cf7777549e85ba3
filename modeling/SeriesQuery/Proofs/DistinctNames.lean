import Mathlib.Data.List.Nodup
import Mathlib.Data.List.Perm.Subperm
import SeriesQuery.Engine.Label

/-!
# Names that come out the same

`distinctNames` puts a number after every name that has been given out before. That its result
holds no two equal names rests on the search for that number. `nextFree` tries one number more than
there are names taken, and a name with different numbers gives different names, so one of those it
tries is free.

The rest is an invariant of giving names out. All that has been given and all that is still to come
is taken, so a name that is free is none of them. That is enough for names without repetition.

Which names they are takes more. `Amid` relates what is taken, what has been given and how far the
numbers have gone to the list itself and to what the part of it that is done has become. No number
that has been passed over is free again, so the number of a name is the least that is free, wherever
the search for it began.
-/

namespace SeriesQuery

theorem numbered_injective (name : Text) : Function.Injective (numbered name) := by
  intro m n h
  have hdigits : Text.ofNat m = Text.ofNat n := (List.cons.inj (List.append_cancel_left h)).2
  calc
    m = Nat.ofDigitChars 10 (Text.ofNat m) 0 := Nat.ofDigitChars_ten_toDigits.symm
    _ = Nat.ofDigitChars 10 (Text.ofNat n) 0 := by rw [hdigits]
    _ = n := Nat.ofDigitChars_ten_toDigits

theorem numbered_ne (name : Text) (n : Nat) : numbered name n ≠ name := by
  intro h
  have hlength := congrArg List.length h
  simp [numbered] at hlength

/-- A list that holds a name with each of so many numbers in a row is at least so long. -/
theorem le_length_of_numbered {l : List Text} {name : Text} {first count : Nat}
    (h : ∀ i < count, numbered name (first + i) ∈ l) : count ≤ l.length := by
  let tried := (List.range count).map fun i => numbered name (first + i)
  have hnodup : tried.Nodup := by
    refine List.Nodup.map (fun i j hij => ?_) List.nodup_range
    have := numbered_injective name hij
    omega
  have hsub : tried ⊆ l := by
    intro t ht
    obtain ⟨i, hi, rfl⟩ := List.mem_map.mp ht
    exact h i (List.mem_range.mp hi)
  have hle := (hnodup.subperm hsub).length_le
  rwa [List.length_map, List.length_range] at hle

namespace NamesInUse

/-! ## The search for a number -/

/-- The search stops `k` numbers after the next one: those before are taken, and so is this one
only if there are no more tries. -/
theorem nextFree_cases (taken : List Text) (name : Text) (fuel n : Nat) :
    ∃ k, nextFree taken name fuel n = n + k + 1
      ∧ (∀ i < k, numbered name (n + i + 1) ∈ taken)
      ∧ (numbered name (n + k + 1) ∈ taken → k = fuel) := by
  induction fuel generalizing n with
  | zero => exact ⟨0, rfl, fun i hi => absurd hi (Nat.not_lt_zero i), fun _ => rfl⟩
  | succ fuel ih =>
      rw [nextFree]
      split
      · next htaken =>
          obtain ⟨k, hk, hbefore, hlast⟩ := ih (n + 1)
          refine ⟨k + 1, by rw [hk]; omega, fun i hi => ?_, fun h => ?_⟩
          · cases i with
            | zero => exact List.contains_iff_mem.mp htaken
            | succ i =>
                have hi' := hbefore i (Nat.lt_of_succ_lt_succ hi)
                rwa [show n + (i + 1) + 1 = n + 1 + i + 1 by omega]
          · rw [show n + (k + 1) + 1 = n + 1 + k + 1 by omega] at h
            rw [hlast h]
      · next hfree =>
          exact ⟨0, rfl, fun i hi => absurd hi (Nat.not_lt_zero i),
            fun h => absurd (List.contains_iff_mem.mpr h) hfree⟩

/-- As many tries as there are names taken find a number that is free. -/
theorem numbered_nextFree_not_mem (taken : List Text) (name : Text) (n : Nat) :
    numbered name (nextFree taken name taken.length n) ∉ taken := by
  obtain ⟨k, hk, hbefore, hlast⟩ := nextFree_cases taken name taken.length n
  rw [hk]
  intro hmem
  obtain rfl := hlast hmem
  have htried : ∀ i < taken.length + 1, numbered name (n + 1 + i) ∈ taken := by
    intro i hi
    rw [show n + 1 + i = n + i + 1 by omega]
    rcases Nat.lt_succ_iff_lt_or_eq.mp hi with hlt | rfl
    · exact hbefore i hlt
    · exact hmem
  exact Nat.not_succ_le_self _ (le_length_of_numbered htried)

/-! ## Giving names out -/

/-- Names are in use before some others are given out: what has been given and what is to come
is taken. -/
structure Kept (u : NamesInUse) (coming : List Text) : Prop where
  given : u.given ⊆ u.taken
  coming : coming ⊆ u.taken

/-- What is given is new, and on record. -/
theorem Kept.give {u : NamesInUse} {name : Text} {rest : List Text} (h : u.Kept (name :: rest)) :
    (u.give name).1 ∉ u.given ∧ (u.give name).2.given = (u.give name).1 :: u.given
      ∧ (u.give name).2.Kept rest := by
  obtain ⟨hgiven, hcoming⟩ := h
  obtain ⟨hname, hrest⟩ := List.cons_subset.mp hcoming
  unfold NamesInUse.give
  split
  · have hfree := numbered_nextFree_not_mem u.taken name (u.counter name)
    refine ⟨fun hmem => hfree (hgiven hmem), rfl, ?_, ?_⟩
    · exact List.cons_subset_cons _ hgiven
    · exact List.subset_cons_of_subset _ hrest
  · next hnew =>
      refine ⟨fun hmem => hnew (List.contains_iff_mem.mpr hmem), rfl, ?_, hrest⟩
      exact List.cons_subset.mpr ⟨hname, hgiven⟩

/-- No two of the names given out are equal, and none is equal to one given before. -/
theorem Kept.giveAll {u : NamesInUse} {names : List Text} (h : u.Kept names) :
    (u.giveAll names).Nodup ∧ ∀ name ∈ u.giveAll names, name ∉ u.given := by
  induction names generalizing u with
  | nil => exact ⟨List.nodup_nil, fun name h => by cases h⟩
  | cons name rest ih =>
      obtain ⟨hnew, hgiven, hrest⟩ := h.give
      obtain ⟨hnodup, hothers⟩ := ih hrest
      rw [hgiven] at hothers
      rw [NamesInUse.giveAll]
      refine ⟨List.nodup_cons.mpr ⟨fun hmem => ?_, hnodup⟩, fun other hmem => ?_⟩
      · exact hothers _ hmem List.mem_cons_self
      · rcases List.mem_cons.mp hmem with rfl | hmem
        · exact hnew
        · exact fun hold => hothers other hmem (List.mem_cons_of_mem _ hold)

theorem length_giveAll (u : NamesInUse) (names : List Text) :
    (u.giveAll names).length = names.length := by
  induction names generalizing u with
  | nil => rfl
  | cons name rest ih => exact congrArg Nat.succ (ih _)

/-! ## Which names are numbered, and how -/

/-- Where giving names out stands: of `names` the first are `done`, and `outs` is what they have
become. -/
structure Amid (names done outs : List Text) (u : NamesInUse) : Prop where
  /-- What has been given out. -/
  given : ∀ name, name ∈ u.given ↔ name ∈ outs
  /-- What no numbered name may be. -/
  taken : ∀ name, name ∈ u.taken ↔ name ∈ names ∨ name ∈ outs
  /-- A name of the list has been given out if it is one of those that have been done. -/
  firsts : ∀ name ∈ names, name ∈ outs ↔ name ∈ done
  /-- Numbers begin at two. -/
  counter_pos : ∀ name, 1 ≤ u.counter name
  /-- No number below the last one tried is free. -/
  counted : ∀ name k, 2 ≤ k → k ≤ u.counter name → numbered name k ∈ u.taken

/-- What a name becomes behind those that are done: itself the first time, and after that the name
with the least number from two on that makes it equal to none in the list and none given out. -/
structure Becomes (names done outs : List Text) (name out : Text) : Prop where
  /-- The first time. -/
  first : name ∉ done → out = name
  /-- Every other time. -/
  again : name ∈ done → ∃ n, 2 ≤ n ∧ out = numbered name n ∧ out ∉ names ∧ out ∉ outs
    ∧ ∀ k, 2 ≤ k → k < n → numbered name k ∈ names ∨ numbered name k ∈ outs

theorem counter_cons (u : NamesInUse) (taken given : List Text) (name other : Text) (n : Nat) :
    counter ⟨taken, given, (name, n) :: u.counters⟩ other
      = if name = other then n else u.counter other := by
  unfold counter
  rw [List.find?_cons]
  by_cases h : name = other
  · rw [if_pos h, beq_iff_eq.mpr h]
  · rw [if_neg h, beq_eq_false_iff_ne.mpr h]

/-- The number that a name is given is the least that is free. -/
theorem Amid.nextFree {names done outs : List Text} {u : NamesInUse}
    (h : u.Amid names done outs) (name : Text) :
    let n := nextFree u.taken name u.taken.length (u.counter name)
    2 ≤ n ∧ numbered name n ∉ u.taken
      ∧ ∀ k, 2 ≤ k → k < n → numbered name k ∈ u.taken := by
  intro n
  obtain ⟨more, hn, hbefore, -⟩ :=
    nextFree_cases u.taken name u.taken.length (u.counter name)
  have hpos := h.counter_pos name
  refine ⟨by omega, numbered_nextFree_not_mem u.taken name (u.counter name), fun k htwo hk => ?_⟩
  by_cases hle : k ≤ u.counter name
  · exact h.counted name k htwo hle
  · have hmem := hbefore (k - u.counter name - 1) (by omega)
    rwa [show u.counter name + (k - u.counter name - 1) + 1 = k by omega] at hmem

theorem Amid.give {names done outs : List Text} {u : NamesInUse} (h : u.Amid names done outs)
    {name : Text} (hname : name ∈ names) :
    Becomes names done outs name (u.give name).1
      ∧ (u.give name).2.Amid names (done ++ [name]) (outs ++ [(u.give name).1]) := by
  have hdone : u.given.contains name = true ↔ name ∈ done := by
    rw [List.contains_iff_mem, h.given, h.firsts name hname]
  unfold NamesInUse.give
  split
  · next hagain =>
      obtain ⟨htwo, hfree, hleast⟩ := h.nextFree name
      dsimp only at htwo hfree hleast ⊢
      generalize NamesInUse.nextFree u.taken name u.taken.length (u.counter name) = n at *
      have hnew : numbered name n ∉ names ∧ numbered name n ∉ outs := by
        rwa [h.taken, not_or] at hfree
      refine ⟨⟨fun hnot => absurd (hdone.mp hagain) hnot, fun _ => ?_⟩, ?_⟩
      · refine ⟨n, htwo, rfl, hnew.1, hnew.2, fun k hk hlt => ?_⟩
        exact (h.taken _).mp (hleast k hk hlt)
      · refine ⟨fun x => ?_, fun x => ?_, fun x hx => ?_, fun x => ?_, fun x k hk hle => ?_⟩
        · rw [List.mem_cons, List.mem_append, List.mem_singleton, h.given, or_comm]
        · rw [List.mem_cons, List.mem_append, List.mem_singleton, h.taken, or_comm, or_assoc]
        · have hne : x ≠ numbered name n := fun he => hnew.1 (he ▸ hx)
          have hold : x = name → x ∈ done := fun he => he ▸ hdone.mp hagain
          simp only [List.mem_append, List.mem_singleton, hne, or_false, h.firsts x hx]
          exact ⟨.inl, fun hor => hor.elim id hold⟩
        · rw [counter_cons]
          split
          · omega
          · exact h.counter_pos x
        · rw [counter_cons] at hle
          rw [List.mem_cons]
          split at hle
          · next he =>
              subst he
              by_cases hn : k = n
              · exact .inl (by rw [hn])
              · exact .inr (hleast k hk (by omega))
          · exact .inr (h.counted x k hk hle)
  · next hfirst =>
      have hnot : name ∉ done := fun hmem => hfirst (hdone.mpr hmem)
      refine ⟨⟨fun _ => rfl, fun hmem => absurd hmem hnot⟩, ?_⟩
      refine ⟨fun x => ?_, fun x => ?_, fun x hx => ?_, h.counter_pos, h.counted⟩
      · rw [List.mem_cons, List.mem_append, List.mem_singleton, h.given, or_comm]
      · rw [List.mem_append, List.mem_singleton, h.taken]
        constructor
        · exact fun hor => hor.imp_right .inl
        · rintro (hmem | hmem | rfl)
          · exact .inl hmem
          · exact .inr hmem
          · exact .inl hname
      · rw [List.mem_append, List.mem_append, h.firsts x hx]

/-- Every name becomes what it should, behind those before it and what they have become. -/
theorem Amid.giveAll {names done outs coming : List Text} {u : NamesInUse}
    (h : u.Amid names done outs) (hcoming : coming ⊆ names) {before after : List Text}
    {name : Text} (hat : coming = before ++ name :: after) :
    ∃ given out more, u.giveAll coming = given ++ out :: more ∧ given.length = before.length
      ∧ Becomes names (done ++ before) (outs ++ given) name out := by
  induction before generalizing done outs coming u with
  | nil =>
      subst hat
      obtain ⟨hbecomes, -⟩ := h.give (hcoming List.mem_cons_self)
      refine ⟨[], _, _, rfl, rfl, ?_⟩
      rwa [List.append_nil, List.append_nil]
  | cons first before ih =>
      subst hat
      obtain ⟨-, hnext⟩ := h.give (hcoming List.mem_cons_self)
      obtain ⟨given, out, more, hall, hlength, hbecomes⟩ :=
        ih hnext (List.cons_subset.mp hcoming).2 rfl
      refine ⟨(u.give first).1 :: given, out, more, ?_, congrArg (· + 1) hlength, ?_⟩
      · rw [List.cons_append, NamesInUse.giveAll]
        exact congrArg (_ :: ·) hall
      · rwa [List.append_assoc, List.append_assoc] at hbecomes

end NamesInUse

theorem nodup_distinctNames (names : List Text) : (distinctNames names).Nodup :=
  (NamesInUse.Kept.giveAll ⟨List.nil_subset _, List.Subset.refl _⟩).1

theorem length_distinctNames (names : List Text) : (distinctNames names).length = names.length :=
  NamesInUse.length_giveAll _ names

theorem becomes_distinctNames {names before after : List Text} {name : Text}
    (h : names = before ++ name :: after) :
    ∃ given out more, distinctNames names = given ++ out :: more ∧ given.length = before.length
      ∧ NamesInUse.Becomes names before given name out := by
  have hstart : (NamesInUse.mk names [] []).Amid names [] [] :=
    ⟨fun _ => Iff.rfl, fun x => by simp, fun x _ => Iff.rfl, fun _ => Nat.le_refl 1,
      fun _ k hk hle => absurd (Nat.le_trans hk hle : 2 ≤ 1) (by decide)⟩
  obtain ⟨given, out, more, hall, hlength, hbecomes⟩ :=
    hstart.giveAll (List.Subset.refl names) h
  exact ⟨given, out, more, hall, hlength, hbecomes⟩

/-- Every name is still there, where it stands first. -/
theorem subset_distinctNames (names : List Text) : names ⊆ distinctNames names := by
  intro name hmem
  obtain ⟨before, after, hat, hnot⟩ := List.eq_append_cons_of_mem hmem
  obtain ⟨given, out, more, hall, -, hbecomes⟩ := becomes_distinctNames hat
  rw [hall, hbecomes.first hnot]
  exact List.mem_append_right _ List.mem_cons_self

/-- The names of a list are made different, as many as there were. Each stays where it stands first.
Where it stands again it is put with a number from two on, the least that makes it equal to no name
of the list and to none given out before it; that number is at most the length of the list, so the
search for it ends. -/
theorem distinctNames_numbers (names : List Text) :
    (distinctNames names).length = names.length ∧ (distinctNames names).Nodup
      ∧ ∀ before name after, names = before ++ name :: after →
        ∃ given out more, distinctNames names = given ++ out :: more
          ∧ given.length = before.length
          ∧ (name ∉ before → out = name)
          ∧ (name ∈ before → ∃ n, 2 ≤ n ∧ n ≤ names.length ∧ out = numbered name n ∧ out ∉ names
              ∧ ∀ k, 2 ≤ k → k < n → numbered name k ∈ names ∨ numbered name k ∈ given) := by
  refine ⟨length_distinctNames names, nodup_distinctNames names, fun before name after hat => ?_⟩
  obtain ⟨given, out, more, hall, hlength, hbecomes⟩ := becomes_distinctNames hat
  refine ⟨given, out, more, hall, hlength, hbecomes.first, fun hmem => ?_⟩
  obtain ⟨n, htwo, hout, hnew, -, hleast⟩ := hbecomes.again hmem
  refine ⟨n, htwo, ?_, hout, hnew, hleast⟩
  have hname : name ∈ names := hat ▸ List.mem_append_right _ List.mem_cons_self
  have hall_numbered : ∀ i < n - 1, numbered name (2 + i) ∈ (distinctNames names).erase name := by
    intro i hi
    refine (List.mem_erase_of_ne (numbered_ne name _)).mpr ?_
    by_cases hin : 2 + i = n
    · rw [hin, ← hout, hall]
      exact List.mem_append_right _ List.mem_cons_self
    · rcases hleast (2 + i) (by omega) (by omega) with hmem | hmem
      · exact subset_distinctNames names hmem
      · rw [hall]
        exact List.mem_append_left _ hmem
  have hle := le_length_of_numbered hall_numbered
  have hin := subset_distinctNames names hname
  have hpos := List.length_pos_of_mem hin
  rw [List.length_erase_of_mem hin] at hle
  rw [length_distinctNames] at hle hpos
  omega

/-- The number two is passed over, since `A 2` is a name of the list itself. -/
theorem distinctNames_numbers_taken :
    let names := [Text.of "A", Text.of "A", Text.of "A 2"]
    distinctNames names = [Text.of "A", Text.of "A 3", Text.of "A 2"]
      ∧ ∃ given out more, distinctNames names = given ++ out :: more ∧ given.length = 1
        ∧ ∃ n, 2 ≤ n ∧ n ≤ 3 ∧ out = numbered (Text.of "A") n ∧ out ∉ names
          ∧ ∀ k, 2 ≤ k → k < n → numbered (Text.of "A") k ∈ names
              ∨ numbered (Text.of "A") k ∈ given := by
  intro names
  obtain ⟨given, out, more, hall, hlength, -, hagain⟩ :=
    (distinctNames_numbers names).2.2 [Text.of "A"] (Text.of "A") [Text.of "A 2"] rfl
  exact ⟨by decide +kernel, given, out, more, hall, hlength, hagain List.mem_cons_self⟩

end SeriesQuery
