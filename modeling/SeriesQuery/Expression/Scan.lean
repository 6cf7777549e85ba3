import SeriesQuery.Fault
import SeriesQuery.Operator
import SeriesQuery.Text.Nesting

/-!
# Finding the calls of an expression

An expression is cut into pieces, left to right: calls at the top level, and the text between
them. A call is a word made of identifier characters, white space perhaps, and a parenthesis
with all up to the one that closes it. The pieces put together again are the expression.

No call is found inside single quotes, inside the parentheses of a call or of no call, after one
of the words `IN`, `AND`, `OR`, `NOT` and `EXISTS`, and between `FILTER` or `SELECT` and the next
semicolon.
-/

namespace SeriesQuery

/-- A call as it is written. -/
structure CallText where
  /-- The word before the parenthesis. -/
  word : Text
  /-- The white space after the word. -/
  gap : Text
  /-- The text between the parentheses. -/
  body : Text
  /-- How the function is applied. -/
  grouping : Grouping
  /-- The function. -/
  operator : Operator
  deriving DecidableEq, Repr

/-- The text of a call. -/
def CallText.spelling (c : CallText) : Text := c.word ++ c.gap ++ '(' :: c.body ++ [')']

/-- A piece of an expression. -/
inductive Piece where
  /-- Text that is no call. -/
  | plain (t : Text)
  /-- A call. -/
  | call (c : CallText)
  deriving DecidableEq, Repr

/-- The text of a piece. -/
def Piece.spelling : Piece → Text
  | .plain t => t
  | .call c => c.spelling

namespace Scan

/-- Why an expression cannot be cut, and the text from there on. -/
inductive Obstacle where
  /-- A parenthesis that is not closed. -/
  | unclosed (rest : Text)
  /-- A parenthesis that was not opened. -/
  | unexpectedClose (rest : Text)
  /-- A word before a parenthesis that is no function. -/
  | unknownWord (word : Text)
  deriving DecidableEq, Repr

/-- What a word is made of: all but white space and `; , ( ) ' = "`. -/
def isWordChar (c : Char) : Bool :=
  !(Text.isAsciiBlank c || c == ';' || c == ',' || c == '(' || c == ')' || c == '\'' || c == '='
    || c == '"')

/-- A word that may name a function. -/
def isIdentifier : Text → Bool
  | [] => false
  | c :: rest =>
    (Text.isAsciiLetter c || c == '_') && rest.all fun c => Text.isAsciiAlphanumeric c || c == '_'

/-- The words before a parenthesis that make no call of it. -/
def predicateWords : List Text :=
  [['I', 'N'], ['A', 'N', 'D'], ['O', 'R'], ['N', 'O', 'T'], ['E', 'X', 'I', 'S', 'T', 'S']]

/-- The words that begin a clause. -/
def clauseWords : List Text :=
  [['F', 'I', 'L', 'T', 'E', 'R'], ['S', 'E', 'L', 'E', 'C', 'T']]

/-- Whether a word is one of a list, letters compared without case. -/
def isOneOf (list : List Text) (word : Text) : Bool := list.any (Text.sameLetters · word)

/-- A quoted text up to its closing quote, or to the end where there is none, and what follows. -/
def splitQuoted : Text → Text × Text
  | [] => ([], [])
  | c :: rest =>
    if c == '\'' then ([c], rest)
    else
      let (before, after) := splitQuoted rest
      (c :: before, after)

/-- The first piece of a text that begins with a word character, what follows it, and whether
that lies in a clause. -/
def firstWord (inClause : Bool) (t : Text) : Except Obstacle (Piece × Text × Bool) :=
  let word := t.takeWhile isWordChar
  let rest := t.dropWhile isWordChar
  if inClause then .ok (.plain word, rest, true)
  else if isOneOf clauseWords word then .ok (.plain word, rest, true)
  else
    let gap := rest.takeWhile Text.isAsciiBlank
    let tail := rest.dropWhile Text.isAsciiBlank
    match tail with
    | '(' :: inside =>
      if !isIdentifier word then .ok (.plain word, rest, false)
      else if isOneOf predicateWords word then
        match Text.splitAtClose? 1 false inside with
        | some (body, after) => .ok (.plain (word ++ gap ++ '(' :: body ++ [')']), after, false)
        | none => .error (.unclosed tail)
      else
        match Operator.ofCallName? word with
        | none => .error (.unknownWord word)
        | some (grouping, operator) =>
          match Text.splitAtClose? 1 false inside with
          | some (body, after) => .ok (.call ⟨word, gap, body, grouping, operator⟩, after, false)
          | none => .error (.unclosed tail)
    | _ => .ok (.plain word, rest, false)

/-- The first piece of a text that is not empty, what follows it, and whether that lies in a
clause. -/
def firstPiece (inClause : Bool) (c : Char) (rest : Text) :
    Except Obstacle (Piece × Text × Bool) :=
  if c == '\'' then
    let (quoted, after) := splitQuoted rest
    .ok (.plain (c :: quoted), after, inClause)
  else if c == '(' then
    match Text.splitAtClose? 1 false rest with
    | some (body, after) => .ok (.plain (c :: body ++ [')']), after, inClause)
    | none => .error (.unclosed (c :: rest))
  else if c == ')' then .error (.unexpectedClose (c :: rest))
  else if c == ';' then .ok (.plain [c], rest, false)
  else if isWordChar c then firstWord inClause (c :: rest)
  else .ok (.plain [c], rest, inClause)

/-! ## Every piece takes something -/

theorem splitQuoted_spelling (t : Text) : (splitQuoted t).1 ++ (splitQuoted t).2 = t := by
  induction t with
  | nil => rfl
  | cons c rest ih =>
    simp only [splitQuoted]
    split
    · rfl
    · simp [ih]

theorem splitAtClose?_spelling {depth : Nat} {quoted : Bool} {t before after : Text}
    (h : Text.splitAtClose? depth quoted t = some (before, after)) :
    before ++ ')' :: after = t := by
  induction t generalizing depth quoted before after with
  | nil => simp [Text.splitAtClose?] at h
  | cons c rest ih =>
    have step : ∀ {d : Nat} {q : Bool},
        Text.consFirst c (Text.splitAtClose? d q rest) = some (before, after) →
        before ++ ')' :: after = c :: rest := by
      intro d q hs
      cases hr : Text.splitAtClose? d q rest with
      | none => rw [hr] at hs; simp [Text.consFirst] at hs
      | some p =>
        rw [hr] at hs
        simp only [Text.consFirst, Option.some.injEq, Prod.mk.injEq] at hs
        rw [← hs.1, ← hs.2, List.cons_append, ih hr]
    unfold Text.splitAtClose? at h
    split at h
    · exact step h
    split at h
    · exact step h
    split at h
    · exact step h
    split at h
    · rename_i hc
      split at h
      · simp at h
      · simp only [Option.some.injEq, Prod.mk.injEq] at h
        rw [← h.1, ← h.2, List.nil_append, beq_iff_eq.mp hc]
      · exact step h
    · exact step h

theorem firstWord_spelling {inClause : Bool} {t after : Text} {piece : Piece} {clause : Bool}
    (h : firstWord inClause t = .ok (piece, after, clause)) : piece.spelling ++ after = t := by
  have hw : t.takeWhile isWordChar ++ t.dropWhile isWordChar = t :=
    List.takeWhile_append_dropWhile
  have hg := List.takeWhile_append_dropWhile (p := Text.isAsciiBlank)
    (l := t.dropWhile isWordChar)
  unfold firstWord at h
  simp only at h
  split at h
  · simp only [Except.ok.injEq, Prod.mk.injEq] at h
    rw [← h.1, ← h.2.1]; exact hw
  split at h
  · simp only [Except.ok.injEq, Prod.mk.injEq] at h
    rw [← h.1, ← h.2.1]; exact hw
  split at h
  · rename_i inside htail
    split at h
    · simp only [Except.ok.injEq, Prod.mk.injEq] at h
      rw [← h.1, ← h.2.1]; exact hw
    split at h
    · split at h
      · rename_i body rest hclose
        simp only [Except.ok.injEq, Prod.mk.injEq] at h
        rw [← h.1, ← h.2.1]
        have hc := splitAtClose?_spelling hclose
        simp only [Piece.spelling, List.append_assoc, List.cons_append, List.nil_append, hc]
        rw [← htail, hg, hw]
      · simp at h
    · split at h
      · simp at h
      · split at h
        · rename_i body rest hclose
          simp only [Except.ok.injEq, Prod.mk.injEq] at h
          rw [← h.1, ← h.2.1]
          have hc := splitAtClose?_spelling hclose
          simp only [Piece.spelling, CallText.spelling, List.append_assoc, List.cons_append,
            List.nil_append, hc]
          rw [← htail, hg, hw]
        · simp at h
  · simp only [Except.ok.injEq, Prod.mk.injEq] at h
    rw [← h.1, ← h.2.1]; exact hw

theorem firstPiece_spelling {inClause : Bool} {c : Char} {rest after : Text} {piece : Piece}
    {clause : Bool} (h : firstPiece inClause c rest = .ok (piece, after, clause)) :
    piece.spelling ++ after = c :: rest := by
  unfold firstPiece at h
  simp only at h
  split at h
  · simp only [Except.ok.injEq, Prod.mk.injEq] at h
    rw [← h.1, ← h.2.1]
    simp [Piece.spelling, splitQuoted_spelling]
  split at h
  · split at h
    · rename_i hclose
      simp only [Except.ok.injEq, Prod.mk.injEq] at h
      rw [← h.1, ← h.2.1]
      have hc := splitAtClose?_spelling hclose
      simp [Piece.spelling, hc]
    · simp at h
  split at h
  · simp at h
  split at h
  · simp only [Except.ok.injEq, Prod.mk.injEq] at h
    rw [← h.1, ← h.2.1]; rfl
  split at h
  · exact firstWord_spelling h
  · simp only [Except.ok.injEq, Prod.mk.injEq] at h
    rw [← h.1, ← h.2.1]; rfl

theorem firstWord_ne_nil {inClause : Bool} {c : Char} {rest after : Text} {piece : Piece}
    {clause : Bool} (hc : isWordChar c = true)
    (h : firstWord inClause (c :: rest) = .ok (piece, after, clause)) : piece.spelling ≠ [] := by
  have hword : (c :: rest).takeWhile isWordChar ≠ [] := by simp [hc]
  unfold firstWord at h
  simp only at h
  repeat' split at h
  all_goals first
    | (simp only [Except.ok.injEq, Prod.mk.injEq] at h
       rw [← h.1]
       simp [Piece.spelling, CallText.spelling, hword])
    | simp at h

theorem firstPiece_ne_nil {inClause : Bool} {c : Char} {rest after : Text} {piece : Piece}
    {clause : Bool} (h : firstPiece inClause c rest = .ok (piece, after, clause)) :
    piece.spelling ≠ [] := by
  unfold firstPiece at h
  simp only at h
  split at h
  · simp only [Except.ok.injEq, Prod.mk.injEq] at h
    rw [← h.1]; simp [Piece.spelling]
  split at h
  · split at h
    · simp only [Except.ok.injEq, Prod.mk.injEq] at h
      rw [← h.1]; simp [Piece.spelling]
    · simp at h
  split at h
  · simp at h
  split at h
  · simp only [Except.ok.injEq, Prod.mk.injEq] at h
    rw [← h.1]; simp [Piece.spelling]
  split at h
  · rename_i hword
    exact firstWord_ne_nil hword h
  · simp only [Except.ok.injEq, Prod.mk.injEq] at h
    rw [← h.1]; simp [Piece.spelling]

theorem length_lt_of_firstPiece {inClause : Bool} {c : Char} {rest after : Text} {piece : Piece}
    {clause : Bool} (h : firstPiece inClause c rest = .ok (piece, after, clause)) :
    after.length < rest.length + 1 := by
  have hs := congrArg List.length (firstPiece_spelling h)
  have hne := List.length_pos_iff.mpr (firstPiece_ne_nil h)
  simp only [List.length_append, List.length_cons] at hs
  omega

/-! ## All pieces -/

/-- The pieces of a text. -/
def pieces (inClause : Bool) : Text → Except Obstacle (List Piece)
  | [] => .ok []
  | c :: rest =>
    match _h : firstPiece inClause c rest with
    | .error o => .error o
    | .ok (piece, after, clause) =>
      match pieces clause after with
      | .error o => .error o
      | .ok more => .ok (piece :: more)
termination_by t => t.length
decreasing_by exact length_lt_of_firstPiece _h

/-- The fault of an obstacle that was met in a text. -/
def Obstacle.toFault (text : Text) : Obstacle → Fault
  | unclosed rest => .unclosed (Text.utf8Size text - Text.utf8Size rest) text
  | unexpectedClose rest => .unexpectedClose (Text.utf8Size text - Text.utf8Size rest) text
  | unknownWord word => .unrecognizedFunction word

end Scan

/-- The pieces of an expression, in order. -/
def scan (text : Text) : Except Fault (List Piece) :=
  match Scan.pieces false text with
  | .ok pieces => .ok pieces
  | .error o => .error (o.toFault text)

/-- A call and the bytes where it begins and ends. -/
structure Span where
  /-- The byte at which the call begins. -/
  start : Nat
  /-- The byte after the call. -/
  stop : Nat
  /-- The call. -/
  call : CallText
  deriving DecidableEq, Repr

/-- The calls among pieces with their places, the first piece beginning at byte `position`. -/
def spansFrom (position : Nat) : List Piece → List Span
  | [] => []
  | .plain t :: rest => spansFrom (position + Text.utf8Size t) rest
  | .call c :: rest =>
    let stop := position + Text.utf8Size c.spelling
    ⟨position, stop, c⟩ :: spansFrom stop rest

/-- The calls of an expression with their places. -/
def spans (pieces : List Piece) : List Span := spansFrom 0 pieces

/-- The calls among pieces. -/
def callTexts : List Piece → List CallText
  | [] => []
  | .plain _ :: rest => callTexts rest
  | .call c :: rest => c :: callTexts rest

/-- What is left of an expression when its calls are taken out, trimmed. -/
def remainder (pieces : List Piece) : Text :=
  Text.trim <| pieces.flatMap fun
    | .plain t => t
    | .call _ => []

end SeriesQuery
