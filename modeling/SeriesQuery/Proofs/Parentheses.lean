import SeriesQuery.Text.Nesting

/-!
# Parentheses outside quotes

`splitAtClose?` looks for the parenthesis that closes a call. Here the same scan is a function of
what stands before a place: `openAfter?` counts the parentheses that are open and knows whether
the place is inside single quotes, and it has no answer once one closes that was never opened. A
text is `Closed` if it opens nothing that it does not close, so a place is at the top level if
what stands before it is closed. `splitAtClose?` then cuts exactly after a closed text.

Only quotes and parentheses count. What trimming takes away and what stands between fields is
neither, so a text put together again from its trimmed fields opens and closes as it did before.
-/

namespace SeriesQuery.Text

namespace Nesting

/-- The state after one more character, parentheses alone counted; none after one that closes
where none is open. -/
def meet? (n : Nesting) (c : Char) : Option Nesting :=
  if c == '\'' then some ⟨n.depth, !n.quoted⟩
  else if n.quoted then some n
  else if c == '(' then some ⟨n.depth + 1, false⟩
  else if c == ')' then if n.depth = 0 then none else some ⟨n.depth - 1, false⟩
  else some n

/-- The state after a text, parentheses alone counted. -/
def openAfter? (n : Nesting) : Text → Option Nesting
  | [] => some n
  | c :: rest => (n.meet? c).bind (openAfter? · rest)

@[simp] theorem openAfter?_nil (n : Nesting) : n.openAfter? [] = some n := rfl

@[simp] theorem openAfter?_cons (n : Nesting) (c : Char) (t : Text) :
    n.openAfter? (c :: t) = (n.meet? c).bind (openAfter? · t) := rfl

theorem openAfter?_append (n : Nesting) (a b : Text) :
    n.openAfter? (a ++ b) = (n.openAfter? a).bind (openAfter? · b) := by
  induction a generalizing n with
  | nil => rfl
  | cons c a ih =>
      rw [List.cons_append, openAfter?_cons, openAfter?_cons]
      cases n.meet? c with
      | none => rfl
      | some m => exact ih m

/-- A character that is neither quote nor parenthesis. -/
def isPlain (c : Char) : Bool := !(c == '\'' || c == '(' || c == ')')

theorem meet?_plain (n : Nesting) {c : Char} (h : isPlain c = true) : n.meet? c = some n := by
  simp only [isPlain, Bool.not_eq_true', Bool.or_eq_false_iff] at h
  obtain ⟨⟨hquote, hopen⟩, hclose⟩ := h
  unfold meet?
  rw [hquote, hopen, hclose]
  cases n.quoted <;> rfl

theorem openAfter?_plain (n : Nesting) {t : Text} (h : ∀ c ∈ t, isPlain c = true) :
    n.openAfter? t = some n := by
  induction t with
  | nil => rfl
  | cons c t ih =>
      rw [openAfter?_cons, meet?_plain n (h c List.mem_cons_self)]
      exact ih fun d hd => h d (List.mem_cons_of_mem _ hd)

theorem meet?_deeper {n m : Nesting} {c : Char} (h : n.meet? c = some m) (k : Nat) :
    meet? ⟨n.depth + k, n.quoted⟩ c = some ⟨m.depth + k, m.quoted⟩ := by
  unfold meet? at h ⊢
  dsimp only
  grind

/-- With more parentheses open around it a text ends with as many more open. -/
theorem openAfter?_deeper {n m : Nesting} {t : Text} (h : n.openAfter? t = some m) (k : Nat) :
    openAfter? ⟨n.depth + k, n.quoted⟩ t = some ⟨m.depth + k, m.quoted⟩ := by
  induction t generalizing n with
  | nil =>
      cases h
      rfl
  | cons c t ih =>
      rw [openAfter?_cons] at h ⊢
      obtain ⟨next, hmeet, hrest⟩ := Option.bind_eq_some_iff.mp h
      rw [meet?_deeper hmeet k]
      exact ih hrest

/-- In quotes everything is passed over up to the next quote. -/
theorem openAfter?_quoted (depth : Nat) {t : Text} (h : '\'' ∉ t) :
    openAfter? ⟨depth, true⟩ t = some ⟨depth, true⟩ := by
  induction t with
  | nil => rfl
  | cons c t ih =>
      obtain ⟨hc, ht⟩ := List.ne_and_not_mem_of_not_mem_cons h
      have hmeet : meet? ⟨depth, true⟩ c = some ⟨depth, true⟩ := by
        unfold meet?
        rw [beq_eq_false_iff_ne.mpr (Ne.symm hc)]
        rfl
      rw [openAfter?_cons, hmeet]
      exact ih ht

end Nesting

open Nesting

/-- What opens in the text, quotes included, closes in it, and nothing else closes. -/
def Closed (t : Text) : Prop := outside.openAfter? t = some outside

/-- The parentheses outside single quotes match. -/
def Balanced (t : Text) : Prop := ∃ quoted, outside.openAfter? t = some ⟨0, quoted⟩

instance (t : Text) : Decidable (Closed t) :=
  inferInstanceAs (Decidable (outside.openAfter? t = some outside))

instance (t : Text) : Decidable (Balanced t) :=
  inferInstanceAs (Decidable (∃ quoted, outside.openAfter? t = some ⟨0, quoted⟩))

namespace Closed

theorem nil : Closed [] := rfl

theorem balanced {t : Text} (h : Closed t) : Balanced t := ⟨false, h⟩

/-- After a closed text a scan stands where it stood. -/
theorem openAfter? {before : Text} (h : Closed before) (t : Text) :
    outside.openAfter? (before ++ t) = outside.openAfter? t := by
  rw [openAfter?_append, h]
  rfl

theorem append {a b : Text} (ha : Closed a) (hb : Closed b) : Closed (a ++ b) :=
  (ha.openAfter? b).trans hb

theorem append_iff {a b : Text} (ha : Closed a) : Closed (a ++ b) ↔ Closed b := by
  unfold Closed
  rw [ha.openAfter? b]

theorem of_plain {t : Text} (h : ∀ c ∈ t, isPlain c = true) : Closed t := openAfter?_plain _ h

/-- A text in quotes. -/
theorem quotes {body : Text} (h : '\'' ∉ body) : Closed ('\'' :: body ++ ['\'']) := by
  show Nesting.openAfter? ⟨0, true⟩ (body ++ ['\'']) = some outside
  rw [openAfter?_append, openAfter?_quoted 0 h]
  rfl

/-- A closed text in parentheses. -/
theorem group {body : Text} (h : Closed body) : Closed ('(' :: body ++ [')']) := by
  have hdeeper : Nesting.openAfter? ⟨0 + 1, false⟩ body = some ⟨0 + 1, false⟩ :=
    openAfter?_deeper h 1
  show Nesting.openAfter? ⟨0 + 1, false⟩ (body ++ [')']) = some outside
  rw [openAfter?_append, hdeeper]
  rfl

end Closed

/-- Nowhere inside the parentheses around a closed text is the top level. -/
theorem not_closed_inside {body a b : Text} (h : Closed body) (hb : body = a ++ b) :
    ¬ Closed ('(' :: a) := by
  intro ha
  rw [hb, Closed, openAfter?_append] at h
  obtain ⟨m, hm, -⟩ := Option.bind_eq_some_iff.mp h
  have hdeeper : openAfter? ⟨0 + 1, false⟩ a = some ⟨m.depth + 1, m.quoted⟩ :=
    openAfter?_deeper (n := outside) hm 1
  have hsome : some ⟨m.depth + 1, m.quoted⟩ = some outside := hdeeper.symm.trans ha
  cases hsome

/-! ## Where a call ends -/

theorem consFirst_eq_some_iff {c : Char} {x : Option (Text × Text)} {body after : Text} :
    consFirst c x = some (body, after) ↔ ∃ rest, body = c :: rest ∧ x = some (rest, after) := by
  cases x with
  | none => simp [consFirst]
  | some p =>
      simp only [consFirst, Option.some.injEq, Prod.mk.injEq]
      constructor
      · rintro ⟨rfl, rfl⟩
        exact ⟨p.1, rfl, rfl⟩
      · rintro ⟨rest, rfl, rfl⟩
        exact ⟨rfl, rfl⟩

theorem splitAtClose?_cons_of_meet {n m : Nesting} {c : Char} (h : n.meet? c = some m)
    (rest : Text) : splitAtClose? (n.depth + 1) n.quoted (c :: rest)
      = consFirst c (splitAtClose? (m.depth + 1) m.quoted rest) := by
  unfold meet? at h
  rw [splitAtClose?.eq_def]
  dsimp only
  split at h
  · next hquote =>
      cases h
      rw [if_pos hquote]
  · next hquote =>
      rw [if_neg hquote]
      split at h
      · next hquoted =>
          cases h
          rw [if_pos hquoted]
      · next hquoted =>
          have hfalse : n.quoted = false := by simpa using hquoted
          rw [if_neg hquoted, hfalse]
          split at h
          · next hopen =>
              cases h
              rw [if_pos hopen]
          · next hopen =>
              rw [if_neg hopen]
              split at h
              · next hclose =>
                  rw [if_pos hclose]
                  obtain ⟨depth, hdepth⟩ : ∃ depth, n.depth = depth + 1 :=
                    Nat.exists_eq_succ_of_ne_zero fun h0 => by simp [h0] at h
                  rw [hdepth] at h ⊢
                  cases h
                  rfl
              · next hclose =>
                  cases h
                  rw [if_neg hclose, hfalse]

theorem splitAtClose?_cons_of_closing {n : Nesting} {c : Char} (h : n.meet? c = none)
    (rest : Text) : c = ')' ∧ n = outside
      ∧ splitAtClose? (n.depth + 1) n.quoted (c :: rest) = some ([], rest) := by
  have hclosing : c = ')' ∧ n = outside := by
    unfold meet? at h
    obtain ⟨depth, quoted⟩ := n
    simp only [outside, mk.injEq]
    grind
  obtain ⟨rfl, rfl⟩ := hclosing
  exact ⟨rfl, rfl, rfl⟩

/-- A text is cut at the first parenthesis that closes more than was opened. `n` is the state
inside the parentheses that are to be closed. -/
theorem splitAtClose?_eq_some_iff {n : Nesting} {t body after : Text} :
    splitAtClose? (n.depth + 1) n.quoted t = some (body, after)
      ↔ t = body ++ ')' :: after ∧ n.openAfter? body = some outside := by
  induction t generalizing n body with
  | nil => simp [splitAtClose?]
  | cons c rest ih =>
      cases hmeet : n.meet? c with
      | none =>
          obtain ⟨rfl, rfl, hcut⟩ := splitAtClose?_cons_of_closing hmeet rest
          rw [hcut]
          cases body with
          | nil => simp [eq_comm]
          | cons b body =>
              simp only [Option.some.injEq, Prod.mk.injEq, List.nil_eq, reduceCtorEq, false_and,
                List.cons_append, List.cons.injEq, openAfter?_cons, false_iff]
              rintro ⟨⟨rfl, -⟩, hopen⟩
              rw [hmeet] at hopen
              cases hopen
      | some m =>
          rw [splitAtClose?_cons_of_meet hmeet, consFirst_eq_some_iff]
          cases body with
          | nil =>
              simp only [reduceCtorEq, false_and, exists_false, List.nil_append, List.cons.injEq,
                openAfter?_nil, Option.some.injEq, false_iff]
              rintro ⟨⟨rfl, -⟩, rfl⟩
              cases hmeet
          | cons b body =>
              simp only [List.cons.injEq, List.cons_append, openAfter?_cons]
              constructor
              · rintro ⟨r, ⟨rfl, rfl⟩, hcut⟩
                obtain ⟨hrest, hopen⟩ := ih.mp hcut
                exact ⟨⟨rfl, hrest⟩, by rw [hmeet]; exact hopen⟩
              · rintro ⟨⟨rfl, hrest⟩, hopen⟩
                rw [hmeet] at hopen
                exact ⟨body, ⟨rfl, rfl⟩, ih.mpr ⟨hrest, hopen⟩⟩

/-- A text without such a parenthesis closes nothing that it does not open. -/
theorem openAfter?_of_splitAtClose?_eq_none {n : Nesting} {t : Text}
    (h : splitAtClose? (n.depth + 1) n.quoted t = none) : ∃ m, n.openAfter? t = some m := by
  induction t generalizing n with
  | nil => exact ⟨n, rfl⟩
  | cons c rest ih =>
      cases hmeet : n.meet? c with
      | none =>
          rw [(splitAtClose?_cons_of_closing hmeet rest).2.2] at h
          cases h
      | some m =>
          rw [splitAtClose?_cons_of_meet hmeet] at h
          cases hcut : splitAtClose? (m.depth + 1) m.quoted rest with
          | none =>
              obtain ⟨last, hlast⟩ := ih hcut
              exact ⟨last, by rw [openAfter?_cons, hmeet]; exact hlast⟩
          | some p =>
              rw [hcut] at h
              cases h

/-- The body of a call ends with the parenthesis that closes the one it begins after. -/
theorem closed_of_splitAtClose? {t body after : Text}
    (h : splitAtClose? 1 false t = some (body, after)) : t = body ++ ')' :: after ∧ Closed body :=
  splitAtClose?_eq_some_iff (n := outside).mp h

theorem splitAtClose?_of_closed {body : Text} (h : Closed body) (after : Text) :
    splitAtClose? 1 false (body ++ ')' :: after) = some (body, after) :=
  splitAtClose?_eq_some_iff (n := outside).mpr ⟨rfl, h⟩

/-- A parenthesis that is never closed is open at the end. -/
theorem not_balanced_of_splitAtClose?_eq_none {before t : Text} (h : Closed before)
    (hcut : splitAtClose? 1 false t = none) : ¬ Balanced (before ++ '(' :: t) := by
  rintro ⟨quoted, hopen⟩
  rw [h.openAfter?] at hopen
  obtain ⟨m, hm⟩ := openAfter?_of_splitAtClose?_eq_none (n := outside) hcut
  have hdeeper : Nesting.openAfter? ⟨0 + 1, false⟩ t = some ⟨m.depth + 1, m.quoted⟩ :=
    openAfter?_deeper (n := outside) hm 1
  have hsome : (some ⟨m.depth + 1, m.quoted⟩ : Option Nesting) = some ⟨0, quoted⟩ :=
    hdeeper.symm.trans hopen
  cases hsome

/-- A parenthesis that closes at the top level was never opened. -/
theorem not_balanced_of_close {before : Text} (h : Closed before) (t : Text) :
    ¬ Balanced (before ++ ')' :: t) := by
  rintro ⟨quoted, hopen⟩
  rw [h.openAfter?] at hopen
  cases hopen

end SeriesQuery.Text
