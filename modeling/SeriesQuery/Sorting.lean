/-!
# Stable sorting

A list is sorted by an order given as `before a b`, "`a` comes before `b`". Its elements are
taken from the front, and each goes in at the end, past those it comes before. An element that
comes before nothing stays where it is met, so the result is defined, and a permutation, also
where `before` is no order: a value that is not a number comes neither before nor after others.
A library may order a long list otherwise there, or end the program; where `before` is an order
the result is that of every stable sort.

The main statements are that `sorted` keeps the elements (`sorted_perm`) and that no element comes
before an earlier one if `before` is an order on the list (`pairwise_sorted`). Whatever `before`
is, of two elements the one that was earlier goes behind the other only if the other comes before
it (`pairwise_sorted_earlier`). To keep the better element is to watch the front (`head?_sorted`).
-/

namespace SeriesQuery

/-- An element put into a list that is sorted from the last to the first: behind the elements it
comes before. -/
def insertBehind {α : Type} (before : α → α → Bool) (backward : List α) (x : α) : List α :=
  backward.takeWhile (before x) ++ x :: backward.dropWhile (before x)

/-- The elements of a list in order, those of the same rank as they were. -/
def sorted {α : Type} (before : α → α → Bool) (xs : List α) : List α :=
  (xs.foldl (insertBehind before) []).reverse

/-! ## Insertion -/

theorem insertBehind_perm {α : Type} (before : α → α → Bool) (backward : List α) (x : α) :
    (insertBehind before backward x).Perm (x :: backward) := by
  have h := @List.perm_middle _ x (backward.takeWhile (before x)) (backward.dropWhile (before x))
  rwa [List.takeWhile_append_dropWhile] at h

theorem foldl_insertBehind_perm {α : Type} (before : α → α → Bool) (xs backward : List α) :
    (xs.foldl (insertBehind before) backward).Perm (xs ++ backward) := by
  induction xs generalizing backward with
  | nil => exact List.Perm.refl _
  | cons x xs ih =>
    exact (ih _).trans (((insertBehind_perm before backward x).append_left xs).trans
      List.perm_middle)

/-! ## The elements -/

/-- Sorting keeps the elements. -/
theorem sorted_perm {α : Type} (before : α → α → Bool) (xs : List α) :
    (sorted before xs).Perm xs := by
  have h := foldl_insertBehind_perm before xs []
  rw [List.append_nil] at h
  exact (List.reverse_perm _).trans h

theorem length_sorted {α : Type} (before : α → α → Bool) (xs : List α) :
    (sorted before xs).length = xs.length :=
  (sorted_perm before xs).length_eq

theorem mem_sorted {α : Type} {before : α → α → Bool} {xs : List α} {x : α} :
    x ∈ sorted before xs ↔ x ∈ xs :=
  (sorted_perm before xs).mem_iff

/-! ## The order of the result -/

/-- An order among some elements: of two at most one comes before the other, and what does not
come before a second element that does not come before a third does not come before the third. -/
structure OrderOn {α : Type} (before : α → α → Bool) (xs : List α) : Prop where
  /-- At most one of two elements comes before the other. -/
  asymm : ∀ a ∈ xs, ∀ b ∈ xs, before a b = true → before b a = false
  /-- Not coming before is transitive. -/
  trans : ∀ a ∈ xs, ∀ b ∈ xs, ∀ c ∈ xs,
    before a b = false → before b c = false → before a c = false

theorem OrderOn.mono {α : Type} {before : α → α → Bool} {xs ys : List α}
    (h : OrderOn before ys) (sub : xs ⊆ ys) : OrderOn before xs where
  asymm a ha b hb := h.asymm a (sub ha) b (sub hb)
  trans a ha b hb c hc := h.trans a (sub ha) b (sub hb) c (sub hc)

theorem insertBehind_cons_of_before {α : Type} {before : α → α → Bool} {x y : α}
    (backward : List α) (h : before x y = true) :
    insertBehind before (y :: backward) x = y :: insertBehind before backward x := by
  simp [insertBehind, h]

theorem insertBehind_cons_of_not_before {α : Type} {before : α → α → Bool} {x y : α}
    (backward : List α) (h : before x y = false) :
    insertBehind before (y :: backward) x = x :: y :: backward := by
  simp [insertBehind, h]

theorem pairwise_insertBehind {α : Type} {before : α → α → Bool} {backward : List α} {x : α}
    (order : OrderOn before (x :: backward))
    (h : backward.Pairwise fun a b => before a b = false) :
    (insertBehind before backward x).Pairwise fun a b => before a b = false := by
  induction backward with
  | nil => simp [insertBehind]
  | cons y rest ih =>
    have hx : x ∈ x :: y :: rest := List.mem_cons_self
    have hy : y ∈ x :: y :: rest := List.mem_cons_of_mem _ List.mem_cons_self
    obtain ⟨hyRest, hRest⟩ := List.pairwise_cons.1 h
    cases hxy : before x y with
    | true =>
      rw [insertBehind_cons_of_before rest hxy]
      refine List.pairwise_cons.2 ⟨fun z hz => ?_, ih (order.mono ?_) hRest⟩
      · rcases List.mem_cons.1 ((insertBehind_perm before rest x).mem_iff.1 hz) with rfl | hz
        · exact order.asymm _ hx _ hy hxy
        · exact hyRest z hz
      · exact List.cons_subset_cons x (List.subset_cons_self y rest)
    | false =>
      rw [insertBehind_cons_of_not_before rest hxy]
      refine List.pairwise_cons.2 ⟨fun z hz => ?_, h⟩
      rcases List.mem_cons.1 hz with rfl | hz
      · exact hxy
      · exact order.trans x hx y hy z (List.mem_cons_of_mem _ (List.mem_cons_of_mem _ hz)) hxy
          (hyRest z hz)

theorem pairwise_foldl_insertBehind {α : Type} {before : α → α → Bool} {xs backward : List α}
    (order : OrderOn before (xs ++ backward))
    (h : backward.Pairwise fun a b => before a b = false) :
    (xs.foldl (insertBehind before) backward).Pairwise fun a b => before a b = false := by
  induction xs generalizing backward with
  | nil => exact h
  | cons x xs ih =>
    refine ih (order.mono fun z hz => ?_) (pairwise_insertBehind (order.mono fun z hz => ?_) h)
    · rw [List.mem_append, (insertBehind_perm before backward x).mem_iff] at hz
      grind
    · grind

/-- In a sorted list no element comes before an earlier one. -/
theorem pairwise_sorted {α : Type} {before : α → α → Bool} {xs : List α}
    (order : OrderOn before xs) :
    (sorted before xs).Pairwise fun a b => before b a = false := by
  rw [sorted, List.pairwise_reverse]
  exact pairwise_foldl_insertBehind (by rwa [List.append_nil]) List.Pairwise.nil

/-! ## The front of the result -/

/-- What stands in front after one more element: the element if it comes before the one that
stands there, or if none does. -/
def front {α : Type} (before : α → α → Bool) : Option α → α → Option α
  | none, x => some x
  | some y, x => if before x y then some x else some y

/-- A list sorted from the last to the first has its front at the end. -/
theorem getLast?_insertBehind {α : Type} {before : α → α → Bool} {backward : List α} {x : α}
    (order : OrderOn before (x :: backward))
    (h : backward.Pairwise fun a b => before a b = false) :
    (insertBehind before backward x).getLast? = front before backward.getLast? x := by
  induction backward with
  | nil => rfl
  | cons y rest ih =>
    have hx : x ∈ x :: y :: rest := List.mem_cons_self
    have hy : y ∈ x :: y :: rest := List.mem_cons_of_mem _ List.mem_cons_self
    obtain ⟨hyRest, hRest⟩ := List.pairwise_cons.1 h
    cases hxy : before x y with
    | true =>
      have sub : x :: rest ⊆ x :: y :: rest :=
        List.cons_subset_cons x (List.subset_cons_self y rest)
      rw [insertBehind_cons_of_before rest hxy, List.getLast?_cons, ih (order.mono sub) hRest]
      cases hlast : rest.getLast? with
      | none =>
        obtain rfl := List.getLast?_eq_none_iff.1 hlast
        simp [front, hxy]
      | some z =>
        rw [List.getLast?_cons, hlast, Option.getD_some]
        cases hxz : before x z with
        | true => simp [front, hxz]
        | false => simp [front, hxz]
    | false =>
      -- `x` does not come before `y`, which does not come before the last one
      have hworse : ∀ z ∈ (y :: rest).getLast?, before x z = false := by
        intro z hz
        rcases List.mem_cons.1 (List.mem_of_mem_getLast? hz) with rfl | hz'
        · exact hxy
        · exact order.trans x hx y hy z (List.mem_cons_of_mem _ (List.mem_cons_of_mem _ hz')) hxy
            (hyRest z hz')
      rw [insertBehind_cons_of_not_before rest hxy]
      cases hlast : (y :: rest).getLast? with
      | none => cases List.getLast?_eq_none_iff.1 hlast
      | some z =>
        rw [List.getLast?_cons, hlast]
        simp [front, hworse z hlast]

theorem getLast?_foldl_insertBehind {α : Type} {before : α → α → Bool} {xs backward : List α}
    (order : OrderOn before (xs ++ backward))
    (h : backward.Pairwise fun a b => before a b = false) :
    (xs.foldl (insertBehind before) backward).getLast?
      = xs.foldl (front before) backward.getLast? := by
  induction xs generalizing backward with
  | nil => rfl
  | cons x xs ih =>
    have hin : OrderOn before (x :: backward) := order.mono fun z hz => by grind
    rw [List.foldl_cons, List.foldl_cons, ← getLast?_insertBehind hin h]
    refine ih (order.mono fun z hz => ?_) (pairwise_insertBehind hin h)
    rw [List.mem_append, (insertBehind_perm before backward x).mem_iff] at hz
    grind

/-- The front of the sorted list is found by going through the elements once. -/
theorem head?_sorted {α : Type} {before : α → α → Bool} {xs : List α}
    (order : OrderOn before xs) : (sorted before xs).head? = xs.foldl (front before) none := by
  rw [sorted, List.head?_reverse,
    getLast?_foldl_insertBehind (by rwa [List.append_nil]) List.Pairwise.nil]
  rfl

/-! ## Stability -/

theorem pairwise_insertBehind_earlier {α : Type} {before : α → α → Bool}
    {earlier : α → α → Prop} {backward : List α} {x : α}
    (h : backward.Pairwise fun a b => before b a = true ∨ earlier b a)
    (hx : ∀ y ∈ backward, earlier y x) :
    (insertBehind before backward x).Pairwise fun a b => before b a = true ∨ earlier b a := by
  rw [← @List.takeWhile_append_dropWhile _ (before x) backward] at h
  obtain ⟨hahead, hbehind, hcross⟩ := List.pairwise_append.1 h
  refine List.pairwise_append.2 ⟨hahead, List.pairwise_cons.2 ⟨fun y hy => ?_, hbehind⟩, ?_⟩
  · exact .inr (hx y ((List.dropWhile_sublist _).subset hy))
  · intro a ha b hb
    rcases List.mem_cons.1 hb with rfl | hb
    · exact .inl (List.all_eq_true.1 List.all_takeWhile a ha)
    · exact hcross a ha b hb

theorem pairwise_foldl_insertBehind_earlier {α : Type} {before : α → α → Bool}
    {earlier : α → α → Prop} {xs backward : List α}
    (h : backward.Pairwise fun a b => before b a = true ∨ earlier b a)
    (hcross : ∀ y ∈ backward, ∀ x ∈ xs, earlier y x) (hxs : xs.Pairwise earlier) :
    (xs.foldl (insertBehind before) backward).Pairwise fun a b =>
      before b a = true ∨ earlier b a := by
  induction xs generalizing backward with
  | nil => exact h
  | cons x xs ih =>
    obtain ⟨hx, hxs⟩ := List.pairwise_cons.1 hxs
    have step := pairwise_insertBehind_earlier h fun y hy => hcross y hy x List.mem_cons_self
    refine ih step (fun y hy z hz => ?_) hxs
    rcases List.mem_cons.1 ((insertBehind_perm before backward x).mem_iff.1 hy) with rfl | hy
    · exact hx z hz
    · exact hcross y hy z (List.mem_cons_of_mem _ hz)

/-- What was earlier in a list stays ahead of all that does not come before it. -/
theorem pairwise_sorted_earlier {α : Type} (before : α → α → Bool) {earlier : α → α → Prop}
    {xs : List α} (h : xs.Pairwise earlier) :
    (sorted before xs).Pairwise fun a b => before a b = true ∨ earlier a b := by
  rw [sorted, List.pairwise_reverse]
  refine pairwise_foldl_insertBehind_earlier List.Pairwise.nil ?_ h
  intro y hy
  cases hy

/-! ## Elements under other names -/

theorem insertBehind_map {α β : Type} (before : α → α → Bool) (f : β → α) (backward : List β)
    (x : β) : insertBehind before (backward.map f) (f x)
      = (insertBehind (fun a b => before (f a) (f b)) backward x).map f := by
  rw [insertBehind, insertBehind, List.takeWhile_map, List.dropWhile_map, List.map_append,
    List.map_cons]
  rfl

theorem sorted_map {α β : Type} (before : α → α → Bool) (f : β → α) (xs : List β) :
    sorted before (xs.map f) = (sorted (fun a b => before (f a) (f b)) xs).map f := by
  have h : ∀ backward : List β, (xs.map f).foldl (insertBehind before) (backward.map f)
      = (xs.foldl (insertBehind fun a b => before (f a) (f b)) backward).map f := by
    induction xs with
    | nil => exact fun backward => rfl
    | cons x xs ih =>
      intro backward
      rw [List.map_cons, List.foldl_cons, List.foldl_cons, insertBehind_map, ih]
  rw [sorted, sorted, List.map_reverse, ← h []]
  rfl

end SeriesQuery
