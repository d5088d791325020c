import FileShell.Proofs.Path.Patterns

/-! # Patterns as regular expressions

A pattern can be written as a regular expression: its pieces with every character escaped that would
mean something else there, `.*` between each two of them, and an anchor at either end
(`expressionOf`). Such an expression is made of few constructs, and what it accepts is read off its
text from a position on (`Accepts`). The matcher, which reads the pattern itself, finds the same
names to match (`isMatch_expressionOf_iff`). -/

namespace FileShell

/-! ## The expression of a pattern -/

/-- The characters that do not stand for themselves in every place of an expression. -/
def isMeta (c : Char) : Bool := "\\.+*?()|[]\x7b\x7d^$#&-~".toList.contains c

/-- A piece with these characters escaped. -/
def escapedPiece (piece : Text) : Text :=
  piece.flatMap fun c => if isMeta c then ['\\', c] else [c]

/-- **The expression of a pattern.** -/
def expressionOf (pattern : Text) : Text :=
  '^' :: Text.joined ['.', '*'] ((pattern.pieces '*').map escapedPiece) ++ ['$']

/-! ## What expressions match -/

/-- **What an expression accepts at a position**, with the text before the position and the text
behind it. These are the constructs that the expressions of patterns are made of. -/
inductive Accepts : (expression before behind : Text) → Prop
  /-- A match may end anywhere. -/
  | done (before behind : Text) : Accepts [] before behind
  /-- The first anchor: nothing is before the position. -/
  | first {e behind : Text} (h : Accepts e [] behind) : Accepts ('^' :: e) [] behind
  /-- The last anchor: nothing is behind it. -/
  | last {e before : Text} (h : Accepts e before []) : Accepts ('$' :: e) before []
  /-- An escaped character stands for itself. -/
  | escaped {c : Char} {e before behind : Text} (h : Accepts e (before ++ [c]) behind) :
      Accepts ('\\' :: c :: e) before (c :: behind)
  /-- So does a character that has no other meaning. -/
  | plain {c : Char} {e before behind : Text} (plain : isMeta c = false)
      (h : Accepts e (before ++ [c]) behind) : Accepts (c :: e) before (c :: behind)
  /-- A dot with a star stands for any run of characters other than newlines. -/
  | run {run e before behind : Text} (unbroken : '\n' ∉ run)
      (h : Accepts e (before ++ run) behind) : Accepts ('.' :: '*' :: e) before (run ++ behind)

/-- **An expression matches a text** if it accepts it at some position. -/
def IsMatch (expression text : Text) : Prop :=
  ∃ before behind, text = before ++ behind ∧ Accepts expression before behind

variable {c : Char} {e before behind piece pattern name : Text} {pieces : List Text}

/-- An escaped character is the next one. -/
theorem accepts_escaped_iff : Accepts ('\\' :: c :: e) before behind ↔
    ∃ rest, behind = c :: rest ∧ Accepts e (before ++ [c]) rest := by
  constructor
  · intro h
    cases h with
    | escaped h => exact ⟨_, rfl, h⟩
    | plain plain => exact absurd plain (by decide)
  · rintro ⟨rest, rfl, h⟩
    exact .escaped h

/-- A plain character is the next one. -/
theorem accepts_plain_iff (plain : isMeta c = false) : Accepts (c :: e) before behind ↔
    ∃ rest, behind = c :: rest ∧ Accepts e (before ++ [c]) rest := by
  constructor
  · intro h
    cases h with
    | first => exact absurd plain (by decide)
    | last => exact absurd plain (by decide)
    | escaped => exact absurd plain (by decide)
    | plain _ h => exact ⟨_, rfl, h⟩
    | run => exact absurd plain (by decide)
  · rintro ⟨rest, rfl, h⟩
    exact .plain plain h

/-- Any run may be the next one. -/
theorem accepts_run_iff : Accepts ('.' :: '*' :: e) before behind ↔
    ∃ run rest, behind = run ++ rest ∧ '\n' ∉ run ∧ Accepts e (before ++ run) rest := by
  constructor
  · intro h
    cases h with
    | plain plain => exact absurd plain (by decide)
    | run unbroken h => exact ⟨_, _, rfl, unbroken, h⟩
  · rintro ⟨run, rest, rfl, unbroken, h⟩
    exact .run unbroken h

/-- The last anchor is at the end. -/
theorem accepts_last_iff : Accepts ['$'] before behind ↔ behind = [] := by
  constructor
  · intro h
    cases h with
    | last => rfl
    | plain plain => exact absurd plain (by decide)
  · rintro rfl
    exact .last (.done _ _)

/-- An expression with the first anchor matches from the beginning. -/
theorem isMatch_first_iff : IsMatch ('^' :: e) name ↔ Accepts e [] name := by
  constructor
  · rintro ⟨before, behind, rfl, h⟩
    cases h with
    | first h => exact h
    | plain plain => exact absurd plain (by decide)
  · intro h
    exact ⟨[], name, rfl, .first h⟩

/-! ## Pieces -/

/-- **An escaped piece stands for itself.** -/
theorem accepts_escapedPiece_iff : Accepts (escapedPiece piece ++ e) before behind ↔
    ∃ rest, behind = piece ++ rest ∧ Accepts e (before ++ piece) rest := by
  induction piece generalizing before behind with
  | nil => simp [escapedPiece]
  | cons c piece ih =>
    have hcons : escapedPiece (c :: piece) ++ e =
        (if isMeta c then ['\\', c] else [c]) ++ (escapedPiece piece ++ e) := by
      rw [escapedPiece, List.flatMap_cons, List.append_assoc]
      rfl
    have hfirst : Accepts (escapedPiece (c :: piece) ++ e) before behind ↔
        ∃ rest, behind = c :: rest ∧ Accepts (escapedPiece piece ++ e) (before ++ [c]) rest := by
      rw [hcons]
      cases hmeta : isMeta c with
      | true => exact accepts_escaped_iff
      | false => exact accepts_plain_iff hmeta
    rw [hfirst]
    constructor
    · rintro ⟨_, rfl, hpiece⟩
      obtain ⟨rest, rfl, hrest⟩ := ih.1 hpiece
      exact ⟨rest, rfl, by simpa using hrest⟩
    · rintro ⟨rest, rfl, h⟩
      exact ⟨piece ++ rest, rfl, ih.2 ⟨rest, rfl, by simpa using h⟩⟩

/-- **Escaped pieces with runs between them** accept what the pieces match with stars between
them. -/
theorem accepts_joined_iff (nonempty : pieces ≠ []) (plain : ∀ piece ∈ pieces, '*' ∉ piece) :
    Accepts (Text.joined ['.', '*'] (pieces.map escapedPiece) ++ ['$']) before behind ↔
      globMatches (Text.joined ['*'] pieces) behind = true := by
  induction pieces generalizing before behind with
  | nil => exact absurd rfl nonempty
  | cons first rest ih =>
    have hfirst : '*' ∉ first := plain first List.mem_cons_self
    cases rest with
    | nil =>
      simp only [List.map_cons, List.map_nil, Text.joined_singleton, accepts_escapedPiece_iff,
        accepts_last_iff, globMatches_piece_iff hfirst]
      simp
    | cons second rest =>
      have hrest (before behind : Text) :
          Accepts (Text.joined ['.', '*'] ((second :: rest).map escapedPiece) ++ ['$']) before behind ↔
            globMatches (Text.joined ['*'] (second :: rest)) behind = true :=
        ih (List.cons_ne_nil _ _) fun piece hpiece => plain piece (List.mem_cons_of_mem _ hpiece)
      rw [List.map_cons, List.map_cons, Text.joined_cons_cons, Text.joined_cons_cons,
        List.append_assoc, List.append_assoc, accepts_escapedPiece_iff, List.append_assoc,
        globMatches_append_iff]
      constructor
      · rintro ⟨ending, rfl, h⟩
        obtain ⟨run, ending, rfl, unbroken, h⟩ := accepts_run_iff.1 h
        exact ⟨first, run ++ ending, rfl, (globMatches_piece_iff hfirst).2 rfl,
          globMatches_star_iff.2 ⟨run, ending, rfl, unbroken, (hrest _ _).1 h⟩⟩
      · rintro ⟨start, others, rfl, hstart, h⟩
        obtain rfl : start = first := (globMatches_piece_iff hfirst).1 hstart
        obtain ⟨run, ending, rfl, unbroken, h⟩ := globMatches_star_iff.1 h
        exact ⟨run ++ ending, rfl, accepts_run_iff.2 ⟨run, ending, rfl, unbroken, (hrest _ _).2 h⟩⟩

/-- **The matcher agrees with the expression of a pattern**, on every name. -/
theorem isMatch_expressionOf_iff (pattern name : Text) :
    IsMatch (expressionOf pattern) name ↔ globMatches pattern name = true := by
  have hplain : ∀ piece ∈ pattern.pieces '*', '*' ∉ piece := fun _ => not_mem_of_mem_pieces
  have hnonempty : pattern.pieces '*' ≠ [] := List.splitOnP_ne_nil _ _
  rw [expressionOf, List.cons_append, isMatch_first_iff, accepts_joined_iff hnonempty hplain,
    joined_pieces]

/-- A dot in the name of a file is itself, and a star stops at a newline. -/
example : ¬IsMatch "^.*\\.txt$".toList "atxt".toList ∧
    expressionOf "*.txt".toList = "^.*\\.txt$".toList :=
  ⟨fun h => absurd ((isMatch_expressionOf_iff "*.txt".toList _).1 h) (by decide), by decide⟩

end FileShell
