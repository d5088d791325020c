import FileShell.Text.Basic

/-! # Matching names against a wildcard

In the last name of a wildcard a star stands for any run of characters other than newlines; every
other character stands for itself, and the whole name has to match.

A pattern is matched from its end. For each end of the pattern there is a row of flags
(`matchingEnds`), one for each end of the name from the whole name down to the empty text, so the
work is the length of the pattern times that of the name, however many stars there are. The
recursion that one would expect is stated by the equations of `globMatches`. -/

namespace FileShell

/-! ## Rows of flags -/

/-- The row of the empty pattern: only the empty end of the name matches. -/
def emptyEnds : Text → List Bool
  | [] => [true]
  | _ :: name => false :: emptyEnds name

/-- The row of a pattern that begins with a plain character, from the row of what follows it. -/
def charEnds (p : Char) : Text → List Bool → List Bool
  | [], _ => [false]
  | c :: name, row => (p = c && row.tail.headD false) :: charEnds p name row.tail

/-- The row of a pattern that begins with a star, from the row of what follows it. -/
def starEnds : Text → List Bool → List Bool
  | [], row => row
  | c :: name, row =>
    let later := starEnds name row.tail
    (row.headD false || (c ≠ '\n' && later.headD false)) :: later

/-- **Which ends of a name match a pattern.** -/
def matchingEnds (name : Text) : Text → List Bool
  | [] => emptyEnds name
  | '*' :: pattern => starEnds name (matchingEnds name pattern)
  | p :: pattern => charEnds p name (matchingEnds name pattern)

/-- **Whether a name matches a pattern.** -/
def globMatches (pattern name : Text) : Bool := (matchingEnds name pattern).headD false

/-! ## Equations -/

/-- The row of a shorter name is the rest of the row. -/
theorem matchingEnds_cons_tail (pattern : Text) (c : Char) (name : Text) :
    (matchingEnds (c :: name) pattern).tail = matchingEnds name pattern := by
  induction pattern with
  | nil => rfl
  | cons p pattern ih =>
    by_cases h : p = '*'
    · subst h
      simp [matchingEnds, starEnds, ih]
    · simp [matchingEnds, charEnds, ih]

/-- Nothing matches the empty pattern but the empty name. -/
@[simp] theorem globMatches_nil (name : Text) : globMatches [] name = name.isEmpty := by
  cases name <;> rfl

/-- A star may stand for nothing. -/
@[simp] theorem globMatches_star_nil (pattern : Text) :
    globMatches ('*' :: pattern) [] = globMatches pattern [] := rfl

/-- A star stands for nothing, or it takes a character that is no newline and goes on. -/
theorem globMatches_star_cons (pattern : Text) (c : Char) (name : Text) :
    globMatches ('*' :: pattern) (c :: name) =
      (globMatches pattern (c :: name) || (c ≠ '\n' && globMatches ('*' :: pattern) name)) := by
  simp [globMatches, matchingEnds, starEnds, matchingEnds_cons_tail]

/-- A plain character needs a character. -/
theorem globMatches_char_nil {p : Char} (h : p ≠ '*') (pattern : Text) :
    globMatches (p :: pattern) [] = false := by
  simp [globMatches, matchingEnds, charEnds]

/-- A plain character matches itself only. -/
theorem globMatches_char_cons {p : Char} (h : p ≠ '*') (pattern : Text) (c : Char) (name : Text) :
    globMatches (p :: pattern) (c :: name) = (p = c && globMatches pattern name) := by
  simp [globMatches, matchingEnds, charEnds, matchingEnds_cons_tail]

end FileShell
