/-!
# Shuffling

A list in an order that is drawn by chance. Chance enters as a seed, so shuffling is a function;
it gives every element again, only in another order.
-/

namespace SeriesQuery

variable {α : Type}

/-- Draws so many elements out of a list one by one. -/
def drawFrom : Nat → StdGen → List α → List α
  | 0, _, _ => []
  | n + 1, chance, l =>
    let (i, chance) := randNat chance 0 (l.length - 1)
    match l[i]? with
    | some x => x :: drawFrom n chance (l.eraseIdx i)
    | none => l

/-- A list in an order that a seed determines. -/
def shuffle (seed : Nat) (l : List α) : List α := drawFrom l.length (mkStdGen seed) l

/-- An element taken out of a list and put in front. -/
theorem perm_of_eraseIdx {l : List α} {i : Nat} (h : i < l.length) :
    (l[i] :: l.eraseIdx i).Perm l := by
  rw [List.eraseIdx_eq_take_drop_succ]
  have hl : l.take i ++ l[i] :: l.drop (i + 1) = l := by
    rw [List.getElem_cons_drop, List.take_append_drop]
  exact List.perm_middle.symm.trans (.of_eq hl)

theorem drawFrom_perm (n : Nat) (chance : StdGen) (l : List α) (h : l.length = n) :
    (drawFrom n chance l).Perm l := by
  induction n generalizing chance l with
  | zero => rw [List.eq_nil_of_length_eq_zero h]; rfl
  | succ n ih =>
    unfold drawFrom
    generalize randNat chance 0 (l.length - 1) = drawn
    obtain ⟨i, chance⟩ := drawn
    simp only
    split
    · rename_i x hx
      obtain ⟨hi, rfl⟩ := List.getElem?_eq_some_iff.mp hx
      have hlen : (l.eraseIdx i).length = n := by
        rw [List.length_eraseIdx_of_lt hi]; omega
      exact ((ih chance _ hlen).cons _).trans (perm_of_eraseIdx hi)
    · rfl

/-- A shuffled list has the same elements. -/
theorem shuffle_perm (seed : Nat) (l : List α) : (shuffle seed l).Perm l :=
  drawFrom_perm _ _ _ rfl

end SeriesQuery
