import Mathlib.Data.List.Induction
import SeriesQuery.Proofs.FirstOccurrences
import SeriesQuery.Proofs.TargetColumns
import SeriesQuery.Resolver

/-!
# What insertions leave behind

Targets are made by insertions, under a name of their own or under an alias, in any order. What
they hold in the end is told by the history alone: a key stands where it was first inserted, under
the first alias that it was ever given, and under its first name if it was given none. An alias
stands for the key that it was first given to.

`Records` says so of targets and a history. It holds of no targets and no history, and one more
insertion keeps it. Resolving a list of targets is a history of insertions, token by token, so it
holds of what is resolved.
-/

namespace SeriesQuery

/-- An insertion into targets. -/
inductive Insertion where
  /-- A series under its own name. -/
  | plain (key display : Text)
  /-- A series under an alias. -/
  | aliased (key name display : Text)

namespace Insertion

/-- The key of the series. -/
def key : Insertion → Text
  | plain key _ => key
  | aliased key _ _ => key

/-- The insertion carried out, and whether it changed anything. -/
def into (m : Targets) : Insertion → Bool × Targets
  | plain key display => m.insert key display
  | aliased key name display => m.insertAliased key name display

/-- The insertion carried out on columns. -/
def intoColumns (c : TargetColumns) : Insertion → Bool × TargetColumns
  | plain key display => c.insert key display
  | aliased key name display => c.insertAliased key name display

/-- The name of its own that a key is inserted under. -/
def name? (key : Text) : Insertion → Option Text
  | plain k display => if k = key then some display else none
  | aliased _ _ _ => none

/-- The name that a key is inserted under with an alias. -/
def aliasedName? (key : Text) : Insertion → Option Text
  | plain _ _ => none
  | aliased k _ display => if k = key then some display else none

/-- The key that an alias is given to. The alias is in lower case. -/
def keyOfAlias? (lower : Text) : Insertion → Option Text
  | plain _ _ => none
  | aliased key name _ => if Text.asciiLower name = lower then some key else none

end Insertion

namespace Targets

/-- The targets after insertions. -/
def insertAll (history : List Insertion) : Targets :=
  history.foldl (fun m i => (i.into m).2) empty

/-- The key that an alias in lower case stands for. -/
def keyOfAlias? (m : Targets) (lower : Text) : Option Text :=
  (m.aliases.find? (·.1 == lower)).map (·.2)

/-- What a history of insertions leaves under a key. -/
def inserted? (history : List Insertion) (key : Text) : Option Target :=
  match history.findSome? (·.aliasedName? key) with
  | some display => some ⟨key, display, true⟩
  | none => (history.findSome? (·.name? key)).map fun display => ⟨key, display, false⟩

/-- Targets are what a history of insertions leaves. -/
structure Records (history : List Insertion) (m : Targets) : Prop where
  /-- The keys are listed in the order of their first insertions. -/
  keys_eq : m.keys = (history.map (·.key)).eraseDups
  /-- The entry of a key is told by the insertions of the key. -/
  find?_eq : ∀ key, m.find? key = inserted? history key
  /-- An alias stands for the first key it was given to. -/
  alias_eq : ∀ lower, m.keyOfAlias? lower = history.findSome? (·.keyOfAlias? lower)

end Targets

/-- The columns after insertions. -/
def TargetColumns.insertAll (history : List Insertion) : TargetColumns :=
  history.foldl (fun c i => (i.intoColumns c).2) empty

namespace Targets

variable {m : Targets} {history : List Insertion}

/-! ## One insertion -/

theorem mem_keys_iff {key : Text} : key ∈ m.keys ↔ (m.find? key).isSome = true := by
  unfold keys find?
  rw [List.find?_isSome, List.mem_map]
  exact exists_congr fun t => and_congr_right fun _ => beq_iff_eq.symm

/-- Behind the others an entry is found if none of its key stands before it. -/
theorem find?_append (entries : List Target) (t : Target) (aliases : List (Text × Text))
    (key : Text) : find? ⟨entries ++ [t], aliases⟩ key
      = (find? ⟨entries, aliases⟩ key).or (if t.key = key then some t else none) := by
  unfold find?
  rw [List.find?_append, List.find?_singleton]
  simp only [beq_iff_eq]

/-- A new entry under a key that has one is found under that key only. -/
theorem find?_rename (entries : List Target) (new : Target) (aliases : List (Text × Text))
    (key : Text) :
    find? ⟨entries.map fun t => if t.key == new.key then new else t, aliases⟩ key
      = (find? ⟨entries, aliases⟩ key).map fun t => if key = new.key then new else t := by
  have hkey : ((fun t : Target => t.key == key) ∘ fun t => if t.key == new.key then new else t)
      = fun t => t.key == key := by
    funext t
    rw [Function.comp_apply]
    split
    · next h => rw [eq_of_beq h]
    · rfl
  unfold find?
  rw [List.find?_map, hkey]
  cases hfind : entries.find? fun t => t.key == key with
  | none => rfl
  | some t =>
      have ht : t.key = key :=
        eq_of_beq (List.find?_some (p := fun t : Target => t.key == key) hfind)
      simp only [Option.map_some, ht, beq_iff_eq]

theorem keyOfAlias?_addAlias (m : Targets) (name key lower : Text) (entries : List Target) :
    keyOfAlias? ⟨entries, m.addAlias name key⟩ lower
      = (m.keyOfAlias? lower).or (if Text.asciiLower name = lower then some key else none) := by
  unfold addAlias keyOfAlias?
  dsimp only
  split
  · next hgiven =>
      obtain ⟨given, hgiven⟩ := Option.isSome_iff_exists.mp hgiven
      split
      · next hname => rw [← hname, hgiven]; rfl
      · rw [Option.or_none]
  · next hnew =>
      have hnew := Option.not_isSome_iff_eq_none.mp hnew
      rw [List.find?_append, List.find?_singleton]
      simp only [beq_iff_eq]
      split
      · next hname => rw [← hname, hnew]; rfl
      · rw [Option.or_none, Option.or_none]

theorem find?_insert (m : Targets) (key display k : Text) :
    (m.insert key display).2.find? k
      = (m.find? k).or (if key = k then some ⟨key, display, false⟩ else none) := by
  unfold insert
  split
  · next hfound =>
      split
      · next hk =>
          obtain ⟨t, ht⟩ := Option.isSome_iff_exists.mp hfound
          rw [← hk, ht]
          rfl
      · rw [Option.or_none]
  · exact find?_append m.entries _ m.aliases k

theorem keys_insert (m : Targets) (key display : Text) :
    (m.insert key display).2.keys = if key ∈ m.keys then m.keys else m.keys ++ [key] := by
  unfold insert
  split
  · next hfound => rw [if_pos (mem_keys_iff.mpr hfound)]
  · next hnew =>
      rw [if_neg (mt mem_keys_iff.mp hnew)]
      exact List.map_append

/-- The entry of a key that is given an alias. -/
def underAlias (key display : Text) : Option Target → Target
  | some t => if t.aliased then t else ⟨key, display, true⟩
  | none => ⟨key, display, true⟩

theorem find?_insertAliased (m : Targets) (key name display k : Text) :
    (m.insertAliased key name display).2.find? k
      = if key = k then some (underAlias key display (m.find? k)) else m.find? k := by
  have hsame : ∀ k, find? ⟨m.entries, m.addAlias name key⟩ k = m.find? k := fun _ => rfl
  have happend := find?_append m.entries ⟨key, display, true⟩ (m.addAlias name key) k
  have hrename := find?_rename m.entries ⟨key, display, true⟩ (m.addAlias name key) k
  rw [hsame] at happend hrename
  unfold insertAliased
  dsimp only at hrename ⊢
  cases hfind : m.find? key with
  | none =>
      refine happend.trans ?_
      by_cases hk : key = k
      · rw [if_pos hk, if_pos hk, ← hk, hfind]
        rfl
      · rw [if_neg hk, if_neg hk, Option.or_none]
  | some t =>
      cases hflag : t.aliased with
      | true =>
          dsimp only
          rw [if_pos hflag]
          refine (hsame k).trans ?_
          by_cases hk : key = k
          · rw [if_pos hk, ← hk, hfind, underAlias, if_pos hflag]
          · rw [if_neg hk]
      | false =>
          dsimp only
          rw [if_neg (by simp [hflag])]
          refine hrename.trans ?_
          by_cases hk : key = k
          · rw [if_pos hk, ← hk, hfind, underAlias, hflag]
            simp
          · simp [hk, Ne.symm hk]

theorem keys_insertAliased (m : Targets) (key name display : Text) :
    (m.insertAliased key name display).2.keys
      = if key ∈ m.keys then m.keys else m.keys ++ [key] := by
  unfold insertAliased
  cases hfind : m.find? key with
  | none =>
      have hnew : key ∉ m.keys := by simp [mem_keys_iff, hfind]
      rw [if_neg hnew]
      exact List.map_append
  | some t =>
      have hfound : key ∈ m.keys := by simp [mem_keys_iff, hfind]
      rw [if_pos hfound]
      dsimp only
      split
      · rfl
      · -- The alias changes how the entry of its key is shown, and no key.
        unfold keys
        rw [List.map_map]
        refine List.map_congr_left fun t _ => ?_
        rw [Function.comp_apply]
        split
        · next hkey => exact (eq_of_beq hkey).symm
        · rfl

theorem keyOfAlias?_insertAliased (m : Targets) (key name display lower : Text) :
    (m.insertAliased key name display).2.keyOfAlias? lower
      = (m.keyOfAlias? lower).or (if Text.asciiLower name = lower then some key else none) := by
  rw [← keyOfAlias?_addAlias m name key lower (m.insertAliased key name display).2.entries]
  unfold insertAliased
  dsimp only
  cases m.find? key with
  | none => rfl
  | some t =>
      dsimp only
      split
      · rfl
      · rfl

theorem keys_into (m : Targets) (i : Insertion) :
    (i.into m).2.keys = if i.key ∈ m.keys then m.keys else m.keys ++ [i.key] := by
  cases i with
  | plain key display => exact keys_insert m key display
  | aliased key name display => exact keys_insertAliased m key name display

/-! ## Histories -/

theorem inserted?_append_plain (history : List Insertion) (key display k : Text) :
    inserted? (history ++ [.plain key display]) k
      = (inserted? history k).or (if key = k then some ⟨key, display, false⟩ else none) := by
  unfold inserted?
  rw [List.findSome?_append, List.findSome?_append]
  cases history.findSome? (·.aliasedName? k) with
  | some display => rfl
  | none =>
      cases history.findSome? (·.name? k) with
      | some display => rfl
      | none =>
          by_cases hk : key = k
          · simp [Insertion.name?, Insertion.aliasedName?, hk]
          · simp [Insertion.name?, Insertion.aliasedName?, hk]

theorem inserted?_append_aliased (history : List Insertion) (key name display k : Text) :
    inserted? (history ++ [.aliased key name display]) k
      = if key = k then some (underAlias key display (inserted? history k))
        else inserted? history k := by
  unfold inserted?
  rw [List.findSome?_append, List.findSome?_append]
  by_cases hk : key = k
  · cases history.findSome? (·.aliasedName? k) with
    | some display => simp [hk, underAlias]
    | none =>
        cases history.findSome? (·.name? k) with
        | some display => simp [Insertion.aliasedName?, hk, underAlias]
        | none => simp [Insertion.aliasedName?, hk, underAlias]
  · simp [Insertion.name?, Insertion.aliasedName?, hk]

theorem Records.empty : Records [] Targets.empty where
  keys_eq := rfl
  find?_eq _ := rfl
  alias_eq _ := rfl

/-- One more insertion leaves what a longer history does. -/
theorem Records.into (h : Records history m) (i : Insertion) :
    Records (history ++ [i]) (i.into m).2 where
  keys_eq := by
    rw [keys_into, h.keys_eq, List.map_append, List.map_singleton]
    split
    · next hold => exact (eraseDups_append_of_mem (List.mem_eraseDups.mp hold)).symm
    · next hnew =>
        exact (eraseDups_append_of_not_mem fun hmem => hnew (List.mem_eraseDups.mpr hmem)).symm
  find?_eq key := by
    cases i with
    | plain k display =>
        rw [inserted?_append_plain, ← h.find?_eq]
        exact find?_insert m k display key
    | aliased k name display =>
        rw [inserted?_append_aliased, ← h.find?_eq]
        exact find?_insertAliased m k name display key
  alias_eq lower := by
    rw [List.findSome?_append, ← h.alias_eq]
    cases i with
    | plain k display =>
        have hsame : (m.insert k display).2.aliases = m.aliases := by
          unfold insert
          split
          · rfl
          · rfl
        show Targets.keyOfAlias? (m.insert k display).2 lower = _
        unfold keyOfAlias?
        rw [hsame]
        exact Option.or_none.symm
    | aliased k name display =>
        refine (keyOfAlias?_insertAliased m k name display lower).trans ?_
        rw [List.findSome?_singleton]
        rfl

theorem insertAll_append (history : List Insertion) (i : Insertion) :
    insertAll (history ++ [i]) = (i.into (insertAll history)).2 := by
  unfold insertAll
  rw [List.foldl_append]
  rfl

theorem records_insertAll (history : List Insertion) : Records history (insertAll history) := by
  induction history using List.reverseRecOn with
  | nil => exact .empty
  | append_singleton history i ih =>
      rw [insertAll_append]
      exact ih.into i

theorem Records.nodup_keys (h : Records history m) : m.keys.Nodup := by
  rw [h.keys_eq]
  exact nodup_eraseDups _

theorem Records.displayOf?_eq (h : Records history m) (key : Text) :
    m.displayOf? key
      = (history.findSome? (·.aliasedName? key)).or (history.findSome? (·.name? key)) := by
  unfold displayOf?
  rw [h.find?_eq]
  unfold inserted?
  cases history.findSome? (·.aliasedName? key) with
  | some display => rfl
  | none =>
      rw [Option.map_map, Option.none_or]
      exact Option.map_id'

theorem Records.isAliased_iff (h : Records history m) (key : Text) :
    m.isAliased key = true ↔ ∃ name display, Insertion.aliased key name display ∈ history := by
  have hflag : m.isAliased key = (history.findSome? (·.aliasedName? key)).isSome := by
    unfold isAliased
    rw [h.find?_eq]
    unfold inserted?
    cases history.findSome? (·.aliasedName? key) with
    | some display => rfl
    | none => cases history.findSome? (·.name? key) <;> rfl
  rw [hflag, List.findSome?_isSome_iff]
  constructor
  · rintro ⟨i, hi, hsome⟩
    cases i with
    | plain k display => cases hsome
    | aliased k name display =>
        by_cases hk : k = key
        · exact ⟨name, display, hk ▸ hi⟩
        · simp [Insertion.aliasedName?, hk] at hsome
  · rintro ⟨name, display, hi⟩
    exact ⟨_, hi, by simp [Insertion.aliasedName?]⟩

/-! ## What an insertion says of itself -/

theorem aliased_underAlias (key display : Text) (t? : Option Target) :
    (underAlias key display t?).aliased = true := by
  cases t? with
  | none => rfl
  | some t =>
      unfold underAlias
      dsimp only
      split
      · next hflag => exact hflag
      · rfl

theorem isAliased_insertAliased (m : Targets) (key name display : Text) :
    (m.insertAliased key name display).2.isAliased key = true := by
  unfold isAliased
  rw [find?_insertAliased, if_pos rfl]
  exact aliased_underAlias key display (m.find? key)

theorem result_insert (m : Targets) (key display : Text) :
    (m.insert key display).1 = true ↔ key ∉ m.keys := by
  rw [mem_keys_iff]
  unfold insert
  split
  · next hfound => simp [hfound]
  · next hnew => simp [hnew]

theorem result_insertAliased (m : Targets) (key name display : Text) :
    (m.insertAliased key name display).1 = true ↔ key ∉ m.keys ∨ m.isAliased key = false := by
  rw [mem_keys_iff]
  unfold insertAliased isAliased
  cases m.find? key with
  | none => simp
  | some t =>
      dsimp only
      split
      · next hflag => simp [hflag]
      · next hflag => simp [hflag]

/-- An insertion says whether it added an entry or gave an entry its first alias. -/
theorem result_into_iff (m : Targets) (i : Insertion) :
    (i.into m).1 = true ↔ (i.key ∉ m.keys ∧ i.key ∈ (i.into m).2.keys)
      ∨ (i.key ∈ m.keys ∧ m.isAliased i.key = false ∧ (i.into m).2.isAliased i.key = true) := by
  have hadded : i.key ∈ (i.into m).2.keys := by
    rw [keys_into]
    split
    · next hold => exact hold
    · simp
  cases i with
  | plain key display =>
      have hsame : key ∈ m.keys → (m.insert key display).2.isAliased key = m.isAliased key := by
        intro hold
        unfold isAliased
        rw [find?_insert, if_pos rfl]
        obtain ⟨t, ht⟩ := Option.isSome_iff_exists.mp (mem_keys_iff.mp hold)
        rw [ht]
        rfl
      refine (result_insert m key display).trans ⟨fun hnew => .inl ⟨hnew, hadded⟩, ?_⟩
      rintro (⟨hnew, -⟩ | ⟨hold, hbefore, hafter⟩)
      · exact hnew
      · rw [show Insertion.into m (.plain key display) = m.insert key display from rfl,
          Insertion.key, hsame hold] at hafter
        exact absurd (hbefore.symm.trans hafter) Bool.false_ne_true
  | aliased key name display =>
      have hafter := isAliased_insertAliased m key name display
      refine (result_insertAliased m key name display).trans ⟨fun h => ?_, ?_⟩
      · by_cases hold : key ∈ m.keys
        · exact .inr ⟨hold, h.resolve_left fun hnew => hnew hold, hafter⟩
        · exact .inl ⟨hold, hadded⟩
      · rintro (⟨hnew, -⟩ | ⟨-, hbefore, -⟩)
        · exact .inl hnew
        · exact .inr hbefore

theorem entries_of_insert_eq_false {key display : Text} (h : (m.insert key display).1 = false) :
    (m.insert key display).2.entries = m.entries := by
  unfold insert at h ⊢
  split
  · rfl
  · next hnew =>
      rw [if_neg hnew] at h
      cases h

theorem entries_of_insertAliased_eq_false {key name display : Text}
    (h : (m.insertAliased key name display).1 = false) :
    (m.insertAliased key name display).2.entries = m.entries := by
  unfold insertAliased at h ⊢
  cases hfind : m.find? key with
  | none => simp [hfind] at h
  | some t =>
      simp only [hfind] at h ⊢
      split
      · rfl
      · next hflag =>
          rw [if_neg hflag] at h
          cases h

/-- An insertion that changed nothing left the entries as they were. -/
theorem unchanged_into_iff (m : Targets) (i : Insertion) :
    (i.into m).1 = false ↔ (i.into m).2.entries = m.entries := by
  constructor
  · intro h
    cases i with
    | plain key display => exact entries_of_insert_eq_false h
    | aliased key name display => exact entries_of_insertAliased_eq_false h
  · intro hentries
    refine Bool.eq_false_iff.mpr fun hchanged => ?_
    have hkeys : (i.into m).2.keys = m.keys := by
      unfold keys
      rw [hentries]
    have hflags : (i.into m).2.isAliased i.key = m.isAliased i.key := by
      unfold isAliased find?
      rw [hentries]
    rcases (result_into_iff m i).mp hchanged with ⟨hnew, hadded⟩ | ⟨-, hbefore, hafter⟩
    · exact hnew (hkeys ▸ hadded)
    · exact Bool.false_ne_true (hbefore.symm.trans (hflags.symm.trans hafter))

/-! ## Columns -/

theorem intoColumns_columns (h : m.keys.Nodup) (i : Insertion) :
    i.intoColumns m.columns = ((i.into m).1, (i.into m).2.columns) := by
  cases i with
  | plain key display => exact insert_columns m key display
  | aliased key name display => exact insertAliased_columns h key name display

theorem columns_insertAll (history : List Insertion) :
    TargetColumns.insertAll history = (insertAll history).columns := by
  induction history using List.reverseRecOn with
  | nil => rfl
  | append_singleton history i ih =>
      have hstep := intoColumns_columns (records_insertAll history).nodup_keys i
      unfold TargetColumns.insertAll at ih ⊢
      rw [List.foldl_append, ih, insertAll_append]
      exact congrArg Prod.snd hstep

end Targets

/-! ## Resolving -/

namespace Resolver

/-- How a series of a target is inserted. -/
def insertion (name? : Option Text) (series : Text × Text) : Insertion :=
  match name? with
  | some name => .aliased series.1 name (aliasDisplay name series.2)
  | none => .plain series.1 series.2

/-- The insertions that a target stands for. -/
def insertionsOf (catalog : Catalog) (layout : Layout) (token : Text) :
    Except Fault (List Insertion) :=
  (resolveToken catalog layout (aliasAndTarget token).2).map
    (List.map (insertion (aliasAndTarget token).1))

variable {catalog : Catalog} {layout : Layout}

theorem foldl_addSeries (name? : Option Text) (m : Targets) (series : List (Text × Text)) :
    series.foldl (addSeries name?) m
      = (series.map (insertion name?)).foldl (fun m i => (i.into m).2) m := by
  rw [List.foldl_map]
  congr 1
  funext m s
  cases name? with
  | none => rfl
  | some name => rfl

theorem resolveFrom_eq (m : Targets) (tokens : List Text) :
    resolveFrom catalog layout m tokens = (tokens.mapM (insertionsOf catalog layout)).map
      fun named => named.flatten.foldl (fun m i => (i.into m).2) m := by
  induction tokens generalizing m with
  | nil => rfl
  | cons token rest ih =>
      have hstep : resolveFrom catalog layout m (token :: rest)
          = (resolveToken catalog layout (aliasAndTarget token).2 >>= fun series =>
              resolveFrom catalog layout (series.foldl (addSeries (aliasAndTarget token).1) m)
                rest) := rfl
      rw [hstep, List.mapM_cons]
      have hhead : insertionsOf catalog layout token = (resolveToken catalog layout
          (aliasAndTarget token).2).map (List.map (insertion (aliasAndTarget token).1)) := rfl
      rw [hhead]
      cases resolveToken catalog layout (aliasAndTarget token).2 with
      | error f => rfl
      | ok series =>
          refine (ih _).trans ?_
          rw [foldl_addSeries]
          cases rest.mapM (insertionsOf catalog layout) with
          | error f => rfl
          | ok named => exact congrArg Except.ok List.foldl_append.symm

theorem resolve_eq (catalog : Catalog) (layout : Layout) (text : Text) :
    resolve catalog layout text = ((Text.targets text).mapM (insertionsOf catalog layout)).map
      fun named => Targets.insertAll named.flatten :=
  resolveFrom_eq Targets.empty (Text.targets text)

theorem resolve_nil : resolve catalog layout [] = .ok Targets.empty := by
  rw [resolve_eq, show Text.targets [] = [] by decide]
  rfl

/-- No series is among resolved targets twice. -/
theorem nodup_resolve {text : Text} {targets : Targets}
    (h : resolve catalog layout text = .ok targets) : targets.keys.Nodup := by
  rw [resolve_eq] at h
  cases hnamed : (Text.targets text).mapM (insertionsOf catalog layout) with
  | error f =>
      rw [hnamed] at h
      cases h
  | ok named =>
      rw [hnamed] at h
      cases h
      exact (Targets.records_insertAll named.flatten).nodup_keys

end Resolver

/-! ## The first wins -/

namespace Targets

/-- What targets say of the insertions they were made by: the first of a key gives it its place,
the first alias of a key its name, or else the first name, and the first key of an alias is the one
it stands for. -/
structure FirstWins (history : List Insertion) (m : Targets) : Prop where
  /-- Each key is listed once. -/
  nodup : m.keys.Nodup
  /-- A key stands where it was first inserted, in whichever way. -/
  keys_eq : m.keys = (history.map (·.key)).eraseDups
  /-- The first name with an alias is shown, or else the first without. -/
  display_eq : ∀ key, m.displayOf? key
    = (history.findSome? (·.aliasedName? key)).or (history.findSome? (·.name? key))
  /-- A key is shown under an alias if it ever was given one. -/
  aliased_iff : ∀ key, m.isAliased key = true
    ↔ ∃ name display, Insertion.aliased key name display ∈ history
  /-- An alias is kept in lower case with the key that it was first given to. -/
  keyOfAlias_eq : ∀ lower, m.keyOfAlias? lower = history.findSome? (·.keyOfAlias? lower)

theorem Records.firstWins (h : Records history m) : FirstWins history m where
  nodup := h.nodup_keys
  keys_eq := h.keys_eq
  display_eq := h.displayOf?_eq
  aliased_iff := h.isAliased_iff
  keyOfAlias_eq := h.alias_eq

/-- Insertions in any order leave what their history tells, and columns that are kept by the same
insertions stay in step and are read alike. Each insertion says whether it added an entry or gave an
entry its first alias, and otherwise left the entries as they were. A list of targets is resolved
to what the insertions of its targets leave, one target after the other, unless one of them is at
fault. -/
theorem first_wins :
    (∀ history, FirstWins history (insertAll history)
      ∧ TargetColumns.insertAll history = (insertAll history).columns
      ∧ (TargetColumns.insertAll history).InStep
      ∧ (∀ key,
        (TargetColumns.insertAll history).displayOf? key = (insertAll history).displayOf? key
        ∧ (TargetColumns.insertAll history).isAliased key = (insertAll history).isAliased key)
      ∧ ∀ i : Insertion,
        (i.intoColumns (TargetColumns.insertAll history)).1 = (i.into (insertAll history)).1
        ∧ ((i.into (insertAll history)).1 = true
          ↔ (i.key ∉ (insertAll history).keys ∧ i.key ∈ (insertAll (history ++ [i])).keys)
            ∨ (i.key ∈ (insertAll history).keys ∧ (insertAll history).isAliased i.key = false
              ∧ (insertAll (history ++ [i])).isAliased i.key = true))
        ∧ ((i.into (insertAll history)).1 = false
          ↔ (insertAll (history ++ [i])).entries = (insertAll history).entries))
    ∧ ∀ catalog layout text,
      match (Text.targets text).mapM (Resolver.insertionsOf catalog layout) with
      | .ok named => ∃ m, Resolver.resolve catalog layout text = .ok m
          ∧ FirstWins named.flatten m
      | .error fault => Resolver.resolve catalog layout text = .error fault := by
  refine ⟨fun history => ?_, fun catalog layout text => ?_⟩
  · have hrecords := records_insertAll history
    rw [columns_insertAll]
    refine ⟨hrecords.firstWins, rfl, inStep_columns hrecords.nodup_keys,
      fun key => ⟨displayOf?_columns _ key, isAliased_columns _ key⟩, fun i => ?_⟩
    rw [insertAll_append, intoColumns_columns hrecords.nodup_keys]
    exact ⟨rfl, result_into_iff _ i, unchanged_into_iff _ i⟩
  · rw [Resolver.resolve_eq]
    cases (Text.targets text).mapM (Resolver.insertionsOf catalog layout) with
    | error fault => rfl
    | ok named => exact ⟨_, rfl, (records_insertAll named.flatten).firstWins⟩

end Targets

end SeriesQuery
