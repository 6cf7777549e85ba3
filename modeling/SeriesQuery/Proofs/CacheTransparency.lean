import SeriesQuery.Proofs.Queries

/-!
# Cached answers are answers

Whatever a session has been through, reading a text through its cache gives what reading the text
gives, and resolving through its cache gives what resolving gives: the same result or the same
fault. A session goes through visits. A visit may be a query with a source of its own, so that
sources may answer differently each time, and with a caller who gives up at any moment; every
reading of the clock may come later than the one before.

The invariant is `Session.Sound`: each entry holds what its own key is read as or resolved to.
A fresh session has no entries, clearing and sweeping only take entries away, and a query is put
together from steps that keep it.
-/

namespace SeriesQuery

/-- What a session may go through. -/
inductive Visit where
  /-- A query to a source, of a caller who gives it up after so many looks, if ever. -/
  | query (source : Source) (shuffle : List Sample → List Sample) (patience : Option Nat)
    (r : Request)
  /-- The reading of an expression. -/
  | parse (text : Text)
  /-- The resolving of a list of targets. -/
  | resolve (text : Text)
  /-- The removal of all entries. -/
  | clear
  /-- The removal of expired entries. -/
  | sweep
  /-- An idle time in milliseconds. -/
  | wait (millis : Nat)

namespace Session

/-- The session after a visit, of an engine with this catalog and layout. -/
def visit (catalog : Catalog) (layout : Layout) (s : Session) : Visit → Session
  | .query source shuffle patience r =>
    (r.answer ⟨catalog, layout, source, shuffle⟩).after { s with patience, fetches := [] }
  | .parse text => (Step.parse text).after s
  | .resolve text =>
    (Step.resolve ⟨catalog, layout, Archive.source ⟨[]⟩, id⟩ text).after s
  | .clear => { s with caches := s.caches.clear }
  | .sweep =>
    let (_, caches, clock) := s.caches.sweep s.clock
    { s with caches, clock }
  | .wait millis => { s with clock := s.clock.idle millis }

/-- The session after visits, one after the other. -/
def visitAll (catalog : Catalog) (layout : Layout) (s : Session) (visits : List Visit) : Session :=
  visits.foldl (visit catalog layout) s

/-- Of a query the session sees what its targets come to, one after the other. -/
theorem visit_query (catalog : Catalog) (layout : Layout) (s : Session) (source : Source)
    (shuffle : List Sample → List Sample) (patience : Option Nat) (r : Request) :
    s.visit catalog layout (.query source shuffle patience r)
      = (r.answers ⟨catalog, layout, source, shuffle⟩).after
          { s with patience, fetches := [] } :=
  r.after_answer _ _

namespace Sound

variable {catalog : Catalog} {layout : Layout}

theorem start (idle : Nat) (clock : Clock) : (Session.start idle clock).Sound catalog layout :=
  ⟨Cache.Holds.empty idle clock.now, Cache.Holds.empty idle clock.now⟩

/-- A visit leaves a sound session sound. -/
theorem visit {s : Session} (h : s.Sound catalog layout) (v : Visit) :
    (s.visit catalog layout v).Sound catalog layout := by
  cases v with
  | query source shuffle patience r =>
      have hs : Session.Sound catalog layout { s with patience, fetches := [] } :=
        ⟨h.expressions, h.targets⟩
      rw [Session.visit_query]
      exact (r.assembled_answers ⟨catalog, layout, source, shuffle⟩).sound hs |>.1
  | parse text => exact (h.parse text).2
  | resolve text => exact (@Sound.resolve s ⟨catalog, layout, _, _⟩ h text).2
  | clear => exact ⟨Cache.Holds.clear, Cache.Holds.clear⟩
  | sweep => exact ⟨h.expressions.sweep _, h.targets.sweep _⟩
  | wait millis => exact ⟨h.expressions, h.targets⟩

theorem visitAll {s : Session} (h : s.Sound catalog layout) (visits : List Visit) :
    (s.visitAll catalog layout visits).Sound catalog layout := by
  induction visits generalizing s with
  | nil => exact h
  | cons v visits ih => exact ih (h.visit v)

end Sound

/-- After any visits a text is read and resolved through the caches just as any text with the
same inside is without them, and so as in a session that begins. -/
theorem caches_transparent (engine : Engine) (idle : Nat) (clock : Clock) (visits : List Visit)
    {text other : Text} (h : Text.trim text = Text.trim other) :
    let s := (start idle clock).visitAll engine.catalog engine.layout visits
    ((Step.parse text).result s = Expression.parse other
        ∧ (Step.parse text).result s = (Step.parse other).result (start idle clock))
      ∧ (Step.resolve engine text).result s
          = Resolver.resolve engine.catalog engine.layout other
        ∧ (Step.resolve engine text).result s
          = (Step.resolve engine other).result (start idle clock) := by
  intro s
  have hfresh : (start idle clock).Sound engine.catalog engine.layout := .start idle clock
  have hs : s.Sound engine.catalog engine.layout := hfresh.visitAll visits
  have hparse : (Step.parse text).result s = Expression.parse other := by
    rw [(hs.parse text).1, Expression.parse_congr h]
  have hresolve : (Step.resolve engine text).result s
      = Resolver.resolve engine.catalog engine.layout other := by
    rw [(hs.resolve text).1, Resolver.resolve_congr _ _ h]
  refine ⟨⟨hparse, ?_⟩, hresolve, ?_⟩
  · rw [hparse, (hfresh.parse other).1]
  · rw [hresolve, (hfresh.resolve other).1]

/-- White space in front of a text that has been read and resolved without it. -/
theorem caches_transparent_indented :
    let engine : Engine := ⟨Catalog.empty, ⟨[], [], [], []⟩, Archive.source ⟨[]⟩, id⟩
    let s := (start 60000 (Clock.still 0)).visitAll engine.catalog engine.layout
      [.parse (Text.of "PPA:1"), .wait 5, .resolve (Text.of "PPA:1")]
    Text.trim (Text.of " PPA:1") = Text.trim (Text.of "PPA:1")
      ∧ (Step.parse (Text.of " PPA:1")).result s = Expression.parse (Text.of "PPA:1")
      ∧ (Step.resolve engine (Text.of " PPA:1")).result s
        = Resolver.resolve engine.catalog engine.layout (Text.of "PPA:1") := by
  intro engine s
  have htrim : Text.trim (Text.of " PPA:1") = Text.trim (Text.of "PPA:1") := by decide
  have h := caches_transparent engine 60000 (Clock.still 0)
    [.parse (Text.of "PPA:1"), .wait 5, .resolve (Text.of "PPA:1")] htrim
  exact ⟨htrim, h.1.1, h.2.1⟩

end Session

end SeriesQuery
