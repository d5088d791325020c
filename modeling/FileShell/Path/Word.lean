import FileShell.Text.Quote

/-! # Words that name paths

A word names one path, or it is a wildcard, or it names nothing at all. Which of the three is read
off its text alone (`WordKind.ofWord?`):

* a **single** path is any text without a reserved character (`isReserved`);
* a **wildcard** is a directory, perhaps none, followed by a name of two parts around a dot of which
  one or both are a star (`isWildcardName`).

One pair of quotes around the word is left out of account. -/

namespace FileShell

/-- What a word that names paths stands for. -/
inductive WordKind
  /-- One path. -/
  | single
  /-- The entries of a directory whose names match. -/
  | wildcard
deriving DecidableEq, Repr

/-! ## Single paths -/

/-- The characters that no single path holds: the operators, the wildcard signs, the double quote
and the character of code 0. -/
def isReserved (c : Char) : Bool := ['\x00', '<', '>', '"', '|', '?', '*'].contains c

/-- Whether a text is not empty and free of reserved characters. -/
def isSingle (t : Text) : Bool := !t.isEmpty && !t.any isReserved

/-! ## Wildcards -/

/-- **A text cut after its last slash**: the directory with its slash, empty if there is no slash,
and the name that follows. -/
def splitAtLastSlash : Text → Text × Text
  | [] => ([], [])
  | c :: rest =>
    let (directory, name) := splitAtLastSlash rest
    if directory.isEmpty && c ≠ '/' then ([], c :: name) else (c :: directory, name)

@[simp] theorem splitAtLastSlash_nil : splitAtLastSlash [] = ([], []) := rfl

/-- The two parts put together are the text. -/
theorem splitAtLastSlash_append (t : Text) :
    (splitAtLastSlash t).1 ++ (splitAtLastSlash t).2 = t := by
  induction t with
  | nil => rfl
  | cons c rest ih =>
    simp only [splitAtLastSlash]
    split
    · next h =>
      have hd : (splitAtLastSlash rest).1 = [] := by
        rw [Bool.and_eq_true] at h
        exact List.isEmpty_iff.1 h.1
      simpa [hd] using ih
    · simp [ih]

/-- The characters that do not stand for themselves in the name of a wildcard. -/
def nameExceptions : List Char := ['<', '>', ':', '"', '/', '\\', '|', '?', '*', '\x00']

/-- Whether a character stands for itself in the name of a wildcard. -/
def isNameLiteral (c : Char) : Bool := !nameExceptions.contains c

/-- One side of a wildcard's dot: a star, or characters that stand for themselves. -/
def isWildcardHalf (t : Text) : Bool := t = ['*'] || (!t.isEmpty && t.all isNameLiteral)

/-- **What the end of a name may be the end of.** It is read from right to left, so that a name is
read only once, however many dots it has. -/
structure NameEnd where
  /-- Characters that stand for themselves, perhaps none. -/
  isLiteral : Bool
  /-- One side of a wildcard's dot. -/
  isHalf : Bool
  /-- Characters that stand for themselves, perhaps none, a dot and one side of it. -/
  isDotted : Bool
deriving DecidableEq, Repr

/-- The end of a name with one more character before it. -/
def NameEnd.after (c : Char) (rest : Text) (e : NameEnd) : NameEnd where
  isLiteral := isNameLiteral c && e.isLiteral
  isHalf := (c = '*' && rest.isEmpty) || (isNameLiteral c && e.isLiteral)
  isDotted := (c = '.' && e.isHalf) || (isNameLiteral c && e.isDotted)

/-- What a text may be the end of. -/
def NameEnd.ofText : Text → NameEnd
  | [] => ⟨true, false, false⟩
  | c :: rest => (NameEnd.ofText rest).after c rest

/-- **The last name of a wildcard**: two halves around a dot. The first one is a star, or it has at
least one character. -/
def isWildcardName : Text → Bool
  | '*' :: '.' :: rest => (NameEnd.ofText rest).isHalf
  | [] => false
  | c :: rest => isNameLiteral c && (NameEnd.ofText rest).isDotted

@[simp] theorem NameEnd.isLiteral_ofText (t : Text) :
    (NameEnd.ofText t).isLiteral = t.all isNameLiteral := by
  induction t with
  | nil => rfl
  | cons c rest ih => simp [ofText, after, ih]

@[simp] theorem NameEnd.isHalf_ofText (t : Text) :
    (NameEnd.ofText t).isHalf = isWildcardHalf t := by
  cases t with
  | nil => rfl
  | cons c rest =>
    cases rest <;> simp [ofText, after, isWildcardHalf]

/-- A dotted end is a cut at one of the dots. -/
theorem NameEnd.isDotted_ofText_iff (t : Text) : (NameEnd.ofText t).isDotted = true ↔
    ∃ l r, t = l ++ '.' :: r ∧ l.all isNameLiteral = true ∧ isWildcardHalf r = true := by
  induction t with
  | nil => simp [ofText]
  | cons c rest ih =>
    simp only [ofText, after, isHalf_ofText, Bool.or_eq_true, Bool.and_eq_true, decide_eq_true_eq,
      ih]
    constructor
    · rintro (⟨rfl, hr⟩ | ⟨hc, l, r, rfl, hl, hr⟩)
      · exact ⟨[], rest, rfl, rfl, hr⟩
      · exact ⟨c :: l, r, rfl, by simp [hc, hl], hr⟩
    · rintro ⟨l, r, h, hl, hr⟩
      cases l with
      | nil =>
        obtain ⟨rfl, rfl⟩ : c = '.' ∧ rest = r := by simpa using h
        exact .inl ⟨rfl, hr⟩
      | cons d l =>
        obtain ⟨rfl, rfl⟩ : c = d ∧ rest = l ++ '.' :: r := by simpa using h
        rw [List.all_cons, Bool.and_eq_true] at hl
        exact .inr ⟨hl.1, l, r, rfl, hl.2, hr⟩

/-- **A wildcard's name is two halves around a dot.** -/
theorem isWildcardName_iff (t : Text) : isWildcardName t = true ↔
    ∃ l r, t = l ++ '.' :: r ∧ isWildcardHalf l = true ∧ isWildcardHalf r = true := by
  have star : isNameLiteral '*' = false := by decide
  constructor
  · intro h
    match t with
    | [] => simp [isWildcardName] at h
    | c :: rest =>
      by_cases hs : ∃ r, c = '*' ∧ rest = '.' :: r
      · obtain ⟨r, rfl, rfl⟩ := hs
        exact ⟨['*'], r, rfl, rfl, by simpa [isWildcardName] using h⟩
      · have h' : isNameLiteral c = true ∧ (NameEnd.ofText rest).isDotted = true := by
          rw [isWildcardName.eq_def] at h
          split at h
          · next r heq => exact absurd ⟨r, by simpa using heq⟩ hs
          · next heq => cases heq
          · next heq =>
            obtain ⟨rfl, rfl⟩ : c = _ ∧ rest = _ := by simpa using heq
            simpa using h
        obtain ⟨l, r, rfl, hl, hr⟩ := (NameEnd.isDotted_ofText_iff rest).1 h'.2
        exact ⟨c :: l, r, rfl, by simp [isWildcardHalf, h'.1, hl], hr⟩
  · rintro ⟨l, r, rfl, hl, hr⟩
    rcases (by simpa [isWildcardHalf] using hl :
        l = ['*'] ∨ ¬l = [] ∧ ∀ x ∈ l, isNameLiteral x = true) with rfl | ⟨hne, hall⟩
    · simpa [isWildcardName] using hr
    · match l, hne with
      | c :: l, _ =>
        have hc : isNameLiteral c = true := hall c (by simp)
        have hd : (NameEnd.ofText (l ++ '.' :: r)).isDotted = true :=
          (NameEnd.isDotted_ofText_iff _).2
            ⟨l, r, rfl, by simpa using fun x hx => hall x (by simp [hx]), hr⟩
        rw [List.cons_append, isWildcardName.eq_def]
        split
        · next heq =>
          obtain ⟨rfl, -⟩ : c = '*' ∧ _ := by simpa using heq
          rw [star] at hc
          cases hc
        · next heq => cases heq
        · next heq =>
          obtain ⟨rfl, rfl⟩ : c = _ ∧ l ++ '.' :: r = _ := by simpa using heq
          rw [hc, hd]
          rfl

/-! ## The kind of a word -/

/-- Whether a word is one quote character and nothing else. -/
def isLoneQuote (word : Text) : Bool := word = ['\''] || word = ['"']

/-- **What a word stands for**, nothing if it names no path. Being one path comes first, so a name
of unusual characters is never taken for a wildcard. -/
def WordKind.ofWord? (word : Text) : Option WordKind :=
  let path := unquoted word
  if isLoneQuote word then none
  else if isSingle path then some .single
  else
    let (directory, name) := splitAtLastSlash path
    if (directory.isEmpty || isSingle directory) && isWildcardName name then some .wildcard
    else none

end FileShell
