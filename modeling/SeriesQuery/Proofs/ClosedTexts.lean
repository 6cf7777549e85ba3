import Mathlib.Data.List.TakeWhile
import SeriesQuery.Catalog.Predicate
import SeriesQuery.Proofs.CharacterClasses

/-!
# Closed texts

A text that is read from the front may be followed by anything, and a reader that has failed on it
might succeed once more stands behind it: an open quote is closed by a quote far off, an open
parenthesis by a later one. What can be told of a text alone is how quotes, square brackets and
parentheses open and close in it. `Place` is the state of a scan that knows this much. A text is
closed if the scan comes out of it as it went in, and it settles if the scan ends outside
everything.

What a reader takes is closed, so what it leaves of a text that settles settles again; and with
nothing left open at its end, a text that settles is read alike whatever stops it. `Steady` says
both of one reader. Readers that are built from steady ones are steady.
-/

namespace SeriesQuery.Text

/-! ## The scan -/

/-- What a scan of a text is inside of, parentheses apart. -/
inductive Zone where
  | plain
  | quoted
  | bracketed
  deriving DecidableEq, Repr

/-- Where a scan stands: its zone, and the number of open parentheses. -/
structure Place where
  zone : Zone
  depth : Nat
  deriving DecidableEq, Repr

namespace Place

/-- The place after one more character. -/
def next (p : Place) (c : Char) : Place :=
  match p.zone with
  | .plain =>
    if c == '\'' then ⟨.quoted, p.depth⟩
    else if c == '[' then ⟨.bracketed, p.depth⟩
    else if c == '(' then ⟨.plain, p.depth + 1⟩
    else if c == ')' then ⟨.plain, p.depth - 1⟩
    else p
  | .quoted => if c == '\'' then ⟨.plain, p.depth⟩ else p
  | .bracketed => if c == ']' then ⟨.plain, p.depth⟩ else p

/-- The place after a text. -/
def after (p : Place) (t : Text) : Place := t.foldl next p

theorem after_append (p : Place) (a b : Text) : p.after (a ++ b) = (p.after a).after b :=
  List.foldl_append

theorem after_cons (p : Place) (c : Char) (t : Text) : p.after (c :: t) = (p.next c).after t := rfl

end Place

/-- A character that neither opens nor closes anything outside quotes and brackets. -/
def IsPlain (c : Char) : Prop := c ≠ '\'' ∧ c ≠ '[' ∧ c ≠ '(' ∧ c ≠ ')'

instance (c : Char) : Decidable (IsPlain c) :=
  inferInstanceAs (Decidable (c ≠ '\'' ∧ c ≠ '[' ∧ c ≠ '(' ∧ c ≠ ')'))

theorem next_of_isPlain {c : Char} (h : IsPlain c) (depth : Nat) :
    Place.next ⟨.plain, depth⟩ c = ⟨.plain, depth⟩ := by
  obtain ⟨hquote, hbracket, hopen, hclose⟩ := h
  simp [Place.next, hquote, hbracket, hopen, hclose]

/-- A class that has none of the four signs. -/
theorem isPlain_of_class {p : Char → Bool} (hp : p '\'' = false ∧ p '[' = false ∧ p '(' = false
    ∧ p ')' = false) {c : Char} (hc : p c = true) : IsPlain c := by
  obtain ⟨hquote, hbracket, hopen, hclose⟩ := hp
  refine ⟨?_, ?_, ?_, ?_⟩ <;> rintro rfl
  · exact Bool.noConfusion (hquote.symm.trans hc)
  · exact Bool.noConfusion (hbracket.symm.trans hc)
  · exact Bool.noConfusion (hopen.symm.trans hc)
  · exact Bool.noConfusion (hclose.symm.trans hc)

/-! ## Closed texts and what is left -/

/-- A text after which a scan stands where it stood before. -/
def IsClosed (t : Text) : Prop := ∀ depth, Place.after ⟨.plain, depth⟩ t = ⟨.plain, depth⟩

/-- A text ends with another, with a closed text before. -/
def Leaves (t rest : Text) : Prop := ∃ taken, IsClosed taken ∧ t = taken ++ rest

/-- From so many open parentheses on, a text ends outside everything. -/
def Settles (depth : Nat) (t : Text) : Prop := Place.after ⟨.plain, depth⟩ t = ⟨.plain, 0⟩

/-- A text that is empty or begins with a closing parenthesis. -/
def Stops (t : Text) : Prop := ∀ c ∈ t.head?, c = ')'

theorem IsClosed.nil : IsClosed [] := fun _ => rfl

theorem IsClosed.append {a b : Text} (ha : IsClosed a) (hb : IsClosed b) : IsClosed (a ++ b) := by
  intro depth
  rw [Place.after_append, ha, hb]

theorem IsClosed.of_isPlain {t : Text} (h : ∀ c ∈ t, IsPlain c) : IsClosed t := by
  induction t with
  | nil => exact .nil
  | cons c t ih =>
      intro depth
      rw [Place.after_cons, next_of_isPlain (h c List.mem_cons_self)]
      exact ih (fun d hd => h d (List.mem_cons_of_mem _ hd)) depth

namespace Leaves

variable {t rest more : Text}

theorem refl (t : Text) : Leaves t t := ⟨[], .nil, rfl⟩

theorem trans (h : Leaves t rest) (h' : Leaves rest more) : Leaves t more := by
  obtain ⟨taken, htaken, rfl⟩ := h
  obtain ⟨taken', htaken', rfl⟩ := h'
  exact ⟨taken ++ taken', htaken.append htaken', (List.append_assoc ..).symm⟩

theorem cons {c : Char} (hc : IsPlain c) (h : Leaves t rest) : Leaves (c :: t) rest := by
  have hfirst : Leaves (c :: t) t :=
    ⟨[c], .of_isPlain fun d hd => List.mem_singleton.mp hd ▸ hc, rfl⟩
  exact hfirst.trans h

theorem length_le (h : Leaves t rest) : rest.length ≤ t.length := by
  obtain ⟨taken, -, rfl⟩ := h
  simp

theorem settles {depth : Nat} (h : Leaves t rest) (ht : Settles depth t) : Settles depth rest := by
  obtain ⟨taken, htaken, rfl⟩ := h
  rwa [Settles, Place.after_append, htaken] at ht

theorem dropWhile {p : Char → Bool} (hp : ∀ c, p c = true → IsPlain c) (t : Text) :
    Leaves t (t.dropWhile p) :=
  ⟨t.takeWhile p, .of_isPlain fun c hc => hp c (List.mem_takeWhile_imp hc),
    (List.takeWhile_append_dropWhile ..).symm⟩

end Leaves

theorem Settles.opened {depth : Nat} {t : Text} (h : Settles depth ('(' :: t)) :
    Settles (depth + 1) t := h

theorem Settles.depth_eq_zero {depth : Nat} (h : Settles depth []) : depth = 0 :=
  congrArg Place.depth h

/-- A class without the closing parenthesis goes no further than to what stops. -/
theorem dropWhile_append_stops {p : Char → Bool} (hp : p ')' = false) (t : Text) {s : Text}
    (hs : Stops s) : (t ++ s).dropWhile p = t.dropWhile p ++ s := by
  rw [List.dropWhile_append]
  split
  · next h =>
      rw [List.isEmpty_iff.mp h, List.nil_append]
      exact dropWhile_of_head? fun c hc => hs c hc ▸ hp
  · rfl

theorem takeWhile_append_stops {p : Char → Bool} (hp : p ')' = false) (t : Text) {s : Text}
    (hs : Stops s) : (t ++ s).takeWhile p = t.takeWhile p := by
  have h := List.takeWhile_append_dropWhile (p := p) (l := t ++ s)
  rw [dropWhile_append_stops hp t hs, ← List.append_assoc] at h
  have ht := List.takeWhile_append_dropWhile (p := p) (l := t)
  exact List.append_cancel_right (List.append_cancel_right h |>.trans ht.symm)

/-! ## Steady readers -/

/-- A reader takes closed text, and from text that settles it takes the same whatever stops it. -/
structure Steady {α : Type} (read : Text → Option (α × Text)) : Prop where
  leaves : ∀ {t a rest}, read t = some (a, rest) → Leaves t rest
  append : ∀ {depth t s}, Settles depth t → Stops s →
    read (t ++ s) = (read t).map fun (a, rest) => (a, rest ++ s)

/-- The same of a reader that gives only what follows. -/
def SteadyWord (read : Text → Option Text) : Prop := Steady fun t => (read t).map (Prod.mk ())

section Steady

variable {α β : Type} {read : Text → Option (α × Text)}

theorem Steady.pure (a : α) : Steady fun t => some (a, t) where
  leaves h := by
    cases h
    exact .refl _
  append _ _ := rfl

theorem Steady.bind {k : α → Text → Option (β × Text)} (h : Steady read)
    (hk : ∀ a, Steady (k a)) : Steady fun t => (read t).bind fun (a, rest) => k a rest where
  leaves {t b rest} hb := by
    obtain ⟨⟨a, middle⟩, ha, hb⟩ := Option.bind_eq_some_iff.mp hb
    exact (h.leaves ha).trans ((hk a).leaves hb)
  append {depth t s} ht hs := by
    rw [h.append ht hs]
    cases ha : read t with
    | none => rfl
    | some found => exact (hk found.1).append ((h.leaves ha).settles ht) hs

theorem SteadyWord.andThen {word : Text → Option Text} {k : Text → Option (β × Text)}
    (h : SteadyWord word) (hk : Steady k) : Steady fun t => (word t).bind k := by
  have hbind := Steady.bind h fun _ => hk
  simp only [Option.bind_map] at hbind
  exact hbind

theorem SteadyWord.of {word : Text → Option Text}
    (hleaves : ∀ {t rest}, word t = some rest → Leaves t rest)
    (happend : ∀ {t s}, Stops s → word (t ++ s) = (word t).map (· ++ s)) : SteadyWord word where
  leaves {t a rest} h := by
    obtain ⟨rest, hword, hrest⟩ := Option.map_eq_some_iff.mp h
    cases hrest
    exact hleaves hword
  append _ hs := by
    rw [happend hs, Option.map_map, Option.map_map]
    rfl

theorem SteadyWord.word_leaves {word : Text → Option Text} (h : SteadyWord word) {t rest : Text}
    (hrest : word t = some rest) : Leaves t rest :=
  Steady.leaves h (congrArg (Option.map (Prod.mk ())) hrest)

theorem SteadyWord.word_append {word : Text → Option Text} (h : SteadyWord word) {depth : Nat}
    {t s : Text} (ht : Settles depth t) (hs : Stops s) : word (t ++ s) = (word t).map (· ++ s) := by
  have hmap := Steady.append h ht hs
  cases hrest : word t with
  | none =>
      rw [hrest] at hmap
      exact Option.map_eq_none_iff.mp hmap
  | some rest =>
      rw [hrest] at hmap
      obtain ⟨more, hmore, heq⟩ := Option.map_eq_some_iff.mp hmap
      cases heq
      exact hmore

theorem SteadyWord.bind {first second : Text → Option Text} (h : SteadyWord first)
    (h' : SteadyWord second) : SteadyWord fun t => (first t).bind second := by
  have hbind := SteadyWord.andThen h h'
  have heq : (fun t => ((first t).bind second).map (Prod.mk ()))
      = fun t => (first t).bind fun rest => (second rest).map (Prod.mk ()) :=
    funext fun t => Option.map_bind
  rw [SteadyWord, heq]
  exact hbind

end Steady

/-! ## Separators and keywords -/

theorem isPlain_of_isSeparator {c : Char} (h : isSeparator c = true) : IsPlain c :=
  isPlain_of_class (by decide) h

theorem leaves_skipSeparators (t : Text) : Leaves t (skipSeparators t) :=
  .dropWhile (fun _ => isPlain_of_isSeparator) t

theorem skipSeparators_append {t s : Text} (hs : Stops s) :
    skipSeparators (t ++ s) = skipSeparators t ++ s := dropWhile_append_stops (by decide) t hs

theorem Steady.skip {α : Type} {read : Text → Option (α × Text)} (h : Steady read) :
    Steady fun t => read (skipSeparators t) where
  leaves hread := (leaves_skipSeparators _).trans (h.leaves hread)
  append ht hs := by
    rw [skipSeparators_append hs]
    exact h.append ((leaves_skipSeparators _).settles ht) hs

theorem steadyWord_afterSeparators? : SteadyWord afterSeparators? := by
  refine .of (fun {t rest} h => ?_) fun {t s} hs => ?_
  · cases t with
    | nil => cases h
    | cons c t =>
        rw [afterSeparators?] at h
        split at h
        · next hc =>
            cases h
            exact .cons (isPlain_of_isSeparator hc) (leaves_skipSeparators t)
        · cases h
  · cases t with
    | nil =>
        cases s with
        | nil => rfl
        | cons c s =>
            obtain rfl := hs c rfl
            rfl
    | cons c t =>
        rw [List.cons_append, afterSeparators?, afterSeparators?, skipSeparators_append hs]
        split <;> rfl

/-- A word of letters alone, as every keyword is. -/
structure IsLetters (word : Text) : Prop where
  all : word.all isAsciiLetter = true

theorem IsLetters.isAsciiLetter {word : Text} (h : IsLetters word) :
    ∀ c ∈ word, Text.isAsciiLetter c = true := List.all_eq_true.mp h.all

theorem isLetters_cons {w : Char} {word : Text} :
    IsLetters (w :: word) ↔ isAsciiLetter w = true ∧ IsLetters word := by
  constructor
  · intro h
    exact ⟨h.isAsciiLetter w List.mem_cons_self, ⟨List.all_eq_true.mpr fun c hc =>
      h.isAsciiLetter c (List.mem_cons_of_mem _ hc)⟩⟩
  · rintro ⟨hw, hword⟩
    refine ⟨?_⟩
    rw [List.all_cons, hw, hword.all]
    rfl

theorem isAsciiLetter_of_toLower_eq {w c : Char} (hw : isAsciiLetter w = true)
    (h : w.toLower = c.toLower) : isAsciiLetter c = true := by
  have hnat := congrArg Char.toNat h
  rw [toNat_toLower, toNat_toLower] at hnat
  rw [isAsciiLetter_iff] at hw ⊢
  split at hnat <;> split at hnat <;> omega

/-- A word of letters does not go on into what begins with no letter. -/
theorem afterWord?_append (hword : IsLetters word)
    (hrest : ∀ c ∈ rest.head?, isAsciiLetter c = false) :
    afterWord? word (t ++ rest) = (afterWord? word t).map (· ++ rest) := by
  induction word generalizing t with
  | nil => rfl
  | cons w word ih =>
      cases t with
      | nil =>
          cases rest with
          | nil => rfl
          | cons c rest =>
              have hne : ¬ (w.toLower == c.toLower) = true := by
                intro h
                have hletter := isAsciiLetter_of_toLower_eq (isLetters_cons.mp hword).1
                  (eq_of_beq h)
                rw [hrest c rfl] at hletter
                cases hletter
              simp only [List.nil_append, afterWord?, if_neg hne, Option.map_none]
      | cons c t =>
          rw [List.cons_append, afterWord?, afterWord?, ih (isLetters_cons.mp hword).2]
          split <;> rfl

/-- A word of letters opens and closes nothing and does not go on into what stops. -/
theorem steadyWord_afterWord? {word : Text} (hword : IsLetters word) :
    SteadyWord (afterWord? word) := by
  refine .of (fun {t rest} h => ?_) fun {t s} hs => ?_
  · induction word generalizing t with
    | nil => exact Option.some.inj h ▸ .refl t
    | cons w word ih =>
        cases t with
        | nil => cases h
        | cons c t =>
            rw [afterWord?] at h
            split at h
            · next hc =>
                have hletter := isAsciiLetter_of_toLower_eq (isLetters_cons.mp hword).1
                  (eq_of_beq hc)
                exact .cons (isPlain_of_class (by decide) hletter)
                  (ih (isLetters_cons.mp hword).2 h)
            · cases h
  · refine afterWord?_append hword fun c hc => ?_
    obtain rfl := hs c hc
    decide

section Words

variable {word : Text} (hword : IsLetters word)

include hword

theorem steadyWord_afterSpacedWord? : SteadyWord (afterSpacedWord? word) :=
  steadyWord_afterSeparators?.bind (steadyWord_afterWord? hword)

theorem steadyWord_afterSetOffWord? : SteadyWord (afterSetOffWord? word) :=
  (steadyWord_afterSpacedWord? hword).bind steadyWord_afterSeparators?

end Words

end SeriesQuery.Text
