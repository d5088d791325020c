import FileShell.Path.Word
import Mathlib.Data.List.Basic

/-! # The grammar of words that name paths

What a word stands for is decided by a scan of its characters. Here it is said what the words of
either kind look like, and that the scan takes exactly these (`ofWord?_iff_grammar`).

* **`Unwraps`** — a word and what is left of it without the quotes around it.
* **`IsSinglePath`**, **`IsWildcardPath`** — the two kinds of paths, by their characters.
* **`splitAtLastSlash_cases`** — the two ways in which a text can be cut after its last slash. -/

namespace FileShell

/-! ## The grammar -/

/-- **What is left of a word without quotes around it**: what stands between two equal quotes at its
ends, or the word itself if there are none. -/
inductive Unwraps : Text → Text → Prop
  /-- A quote stands at either end. -/
  | pair {q : Char} (quote : q = '\'' ∨ q = '"') (inner : Text) :
      Unwraps (q :: (inner ++ [q])) inner
  /-- There is no such pair. -/
  | bare {word : Text}
      (none : ∀ q inner, q = '\'' ∨ q = '"' → word ≠ q :: (inner ++ [q])) : Unwraps word word

/-- No character of a text has a meaning of its own on a line or in a wildcard. -/
def IsUnreserved (t : Text) : Prop := ∀ c ∈ t, c ∉ ['\x00', '<', '>', '"', '|', '?', '*']

/-- **A word that names one path**, with what is left of it without quotes. -/
structure IsSinglePath (word path : Text) : Prop where
  /-- The word is more than one quote. -/
  noLoneQuote : word ≠ ['\''] ∧ word ≠ ['"']
  /-- Something is left of it. -/
  nonempty : path ≠ []
  /-- And that is written in plain characters. -/
  unreserved : IsUnreserved path

/-- A text that stands for itself in the last name of a wildcard. -/
structure IsLiteralName (t : Text) : Prop where
  /-- It is not empty. -/
  nonempty : t ≠ []
  /-- None of its characters is an exception. -/
  plain : ∀ c ∈ t, c ∉ ['<', '>', ':', '"', '/', '\\', '|', '?', '*', '\x00']

/-- **The last name of a wildcard**: a star before the dot, behind it, or both. -/
inductive IsStarName : Text → Prop
  /-- Any name with a dot. -/
  | both : IsStarName ['*', '.', '*']
  /-- Any name with a given ending. -/
  | before {ending : Text} (literal : IsLiteralName ending) : IsStarName ('*' :: '.' :: ending)
  /-- A given name with any ending. -/
  | behind {start : Text} (literal : IsLiteralName start) : IsStarName (start ++ ['.', '*'])

/-- **A path that is a wildcard**: a directory in plain characters, perhaps none, and behind its
last slash a name with a star. -/
def IsWildcardPath (path : Text) : Prop :=
  ∃ directory name, path = directory ++ name ∧
    (directory = [] ∨ directory.getLast? = some '/') ∧ IsUnreserved directory ∧ '/' ∉ name ∧
    IsStarName name

variable {word path t before name : Text}

/-! ## Quotes -/

/-- Taking the quotes off leaves what is left without them. -/
theorem unwraps_unquoted (word : Text) : Unwraps word (unquoted word) := by
  cases word with
  | nil => exact .bare fun q inner _ => nofun
  | cons q rest =>
    rw [unquoted]
    split
    · next hquoted =>
      obtain ⟨hquote, hlast⟩ := hquoted
      have hquote : q = '\'' ∨ q = '"' := by simpa [isQuote] using hquote
      rw [← List.dropLast_append_getLast? q hlast, List.dropLast_concat]
      exact .pair hquote rest.dropLast
    · next hquoted =>
      refine .bare fun q' inner hquote heq => hquoted ?_
      obtain ⟨rfl, rfl⟩ : q = q' ∧ rest = inner ++ [q'] := by simpa using heq
      exact ⟨by simpa [isQuote] using hquote, List.getLast?_concat⟩

/-- Nothing else is left. -/
theorem Unwraps.eq_unquoted (h : Unwraps word path) : path = unquoted word := by
  cases h with
  | pair quote inner =>
    rw [unquoted, if_pos ⟨by simpa [isQuote] using quote, List.getLast?_concat⟩,
      List.dropLast_concat]
  | bare none =>
    -- what the function takes off would be a pair
    generalize hpath : unquoted word = p
    have h : Unwraps word p := hpath ▸ unwraps_unquoted word
    cases h with
    | pair quote => exact absurd rfl (none _ _ quote)
    | bare _ => rfl

/-! ## The last slash -/

/-- **A text is cut after its last slash**, or it has none and is a name altogether. -/
theorem splitAtLastSlash_cases (t : Text) :
    ('/' ∉ t ∧ splitAtLastSlash t = ([], t)) ∨
      ∃ before name, t = before ++ '/' :: name ∧ '/' ∉ name ∧
        splitAtLastSlash t = (before ++ ['/'], name) := by
  induction t with
  | nil => exact .inl ⟨List.not_mem_nil, rfl⟩
  | cons c t ih =>
    rcases ih with ⟨hnone, hsplit⟩ | ⟨before, name, rfl, hname, hsplit⟩
    · by_cases hc : c = '/'
      · subst hc
        exact .inr ⟨[], t, rfl, hnone, by simp [splitAtLastSlash, hsplit]⟩
      · refine .inl ⟨?_, by simp [splitAtLastSlash, hsplit, hc]⟩
        rw [List.mem_cons, not_or]
        exact ⟨Ne.symm hc, hnone⟩
    · exact .inr ⟨c :: before, name, rfl, hname, by simp [splitAtLastSlash, hsplit]⟩

/-- Behind the last slash there is none. -/
theorem splitAtLastSlash_of_slash (h : '/' ∉ name) :
    splitAtLastSlash (before ++ '/' :: name) = (before ++ ['/'], name) := by
  have hname : splitAtLastSlash name = ([], name) := by
    rcases splitAtLastSlash_cases name with ⟨-, hsplit⟩ | ⟨before, rest, rfl, -⟩
    · exact hsplit
    · exact absurd (by simp) h
  induction before with
  | nil => simp [splitAtLastSlash, hname]
  | cons c before ih => simp [splitAtLastSlash, ih]

/-- **The directory and the name of a text** are its only two parts of their kinds. -/
theorem splitAtLastSlash_eq_iff {directory : Text} :
    splitAtLastSlash t = (directory, name) ↔
      t = directory ++ name ∧ (directory = [] ∨ directory.getLast? = some '/') ∧ '/' ∉ name := by
  constructor
  · intro h
    rcases splitAtLastSlash_cases t with ⟨hnone, hsplit⟩ | ⟨before, rest, rfl, hrest, hsplit⟩
    · obtain ⟨rfl, rfl⟩ : [] = directory ∧ t = name := by simpa [hsplit] using h
      exact ⟨rfl, .inl rfl, hnone⟩
    · obtain ⟨rfl, rfl⟩ : before ++ ['/'] = directory ∧ rest = name := by simpa [hsplit] using h
      exact ⟨by simp, .inr List.getLast?_concat, hrest⟩
  · rintro ⟨rfl, rfl | hlast, hname⟩
    · rcases splitAtLastSlash_cases name with ⟨-, hsplit⟩ | ⟨before, rest, rfl, -⟩
      · exact hsplit
      · exact absurd (by simp) hname
    · rw [← List.dropLast_append_getLast? '/' hlast, List.append_assoc, List.singleton_append]
      exact splitAtLastSlash_of_slash hname

/-- A character that is not a slash is added to the name behind the last slash. -/
theorem splitAtLastSlash_concat (t : Text) {c : Char} (h : c ≠ '/') :
    splitAtLastSlash (t ++ [c]) = ((splitAtLastSlash t).1, (splitAtLastSlash t).2 ++ [c]) := by
  induction t with
  | nil => simp [splitAtLastSlash, h]
  | cons d t ih =>
    simp only [List.cons_append, splitAtLastSlash, ih]
    split <;> rfl

/-- A character in front takes nothing from the name behind the last slash. -/
theorem mem_lastName_cons {t : Text} {c d : Char} (h : c ∈ (splitAtLastSlash t).2) :
    c ∈ (splitAtLastSlash (d :: t)).2 := by
  simp only [splitAtLastSlash]
  split
  · exact List.mem_cons_of_mem _ h
  · exact h

/-- Quotes around a word take nothing from the name behind its last slash. -/
theorem mem_lastName_of_unquoted {word : Text} {c : Char}
    (h : c ∈ (splitAtLastSlash (unquoted word)).2) : c ∈ (splitAtLastSlash word).2 := by
  cases word with
  | nil => exact h
  | cons q rest =>
    rw [unquoted] at h
    split at h
    · next hquoted =>
      obtain ⟨inner, rfl⟩ : ∃ inner, rest = inner ++ [q] :=
        ⟨rest.dropLast, (List.dropLast_append_getLast? q hquoted.2).symm⟩
      have hslash : q ≠ '/' := by
        rintro rfl
        exact absurd hquoted.1 (by decide)
      rw [List.dropLast_concat] at h
      refine mem_lastName_cons ?_
      rw [splitAtLastSlash_concat inner hslash]
      exact List.mem_append_left _ h
    · exact h

/-! ## Characters -/

/-- A single path is a text in plain characters that is not empty. -/
theorem isSingle_iff : isSingle t = true ↔ t ≠ [] ∧ IsUnreserved t := by
  simp [isSingle, IsUnreserved, isReserved]

/-- One side of a wildcard's dot is a star or stands for itself. -/
theorem isWildcardHalf_iff : isWildcardHalf t = true ↔ t = ['*'] ∨ IsLiteralName t := by
  have hliteral : IsLiteralName t ↔
      t ≠ [] ∧ ∀ c ∈ t, c ∉ ['<', '>', ':', '"', '/', '\\', '|', '?', '*', '\x00'] :=
    ⟨fun h => ⟨h.nonempty, h.plain⟩, fun h => ⟨h.1, h.2⟩⟩
  rw [hliteral]
  simp [isWildcardHalf, isNameLiteral, nameExceptions]

/-- What stands for itself in a wildcard is written in plain characters. -/
theorem IsLiteralName.unreserved (h : IsLiteralName t) : IsUnreserved t := by
  have hexceptions : ∀ c ∈ ['\x00', '<', '>', '"', '|', '?', '*'],
      c ∈ ['<', '>', ':', '"', '/', '\\', '|', '?', '*', '\x00'] := by simp
  exact fun c hc hreserved => h.plain c hc (hexceptions c hreserved)

/-- A star stands in each of these names. -/
theorem IsStarName.star_mem (h : IsStarName t) : '*' ∈ t := by
  cases h <;> simp

/-- And so does a dot. -/
theorem IsStarName.dot_mem (h : IsStarName t) : '.' ∈ t := by
  cases h <;> simp

/-- **The scan of a name finds a star**, or two sides of a dot that stand for themselves. -/
theorem isWildcardName_iff_star :
    isWildcardName t = true ↔
      IsStarName t ∨ ∃ start ending, t = start ++ '.' :: ending ∧ IsLiteralName start ∧
        IsLiteralName ending := by
  rw [isWildcardName_iff]
  simp only [isWildcardHalf_iff]
  constructor
  · rintro ⟨start, ending, rfl, rfl | hstart, rfl | hending⟩
    · exact .inl .both
    · exact .inl (.before hending)
    · exact .inl (.behind hstart)
    · exact .inr ⟨start, ending, rfl, hstart, hending⟩
  · rintro (h | ⟨start, ending, rfl, hstart, hending⟩)
    · cases h with
      | both => exact ⟨['*'], ['*'], rfl, .inl rfl, .inl rfl⟩
      | before hending => exact ⟨['*'], _, rfl, .inl rfl, .inr hending⟩
      | behind hstart => exact ⟨_, ['*'], rfl, .inr hstart, .inl rfl⟩
    · exact ⟨start, ending, rfl, .inr hstart, .inr hending⟩

/-! ## The kinds of words -/

/-- The scan takes a single path for one. -/
theorem ofWord?_eq_single :
    WordKind.ofWord? word = some .single ↔ IsSinglePath word (unquoted word) := by
  have hgrammar : IsSinglePath word (unquoted word) ↔
      isLoneQuote word = false ∧ isSingle (unquoted word) = true := by
    rw [isSingle_iff]
    constructor
    · intro h
      exact ⟨by simpa [isLoneQuote] using h.noLoneQuote, h.nonempty, h.unreserved⟩
    · rintro ⟨hquote, hne, hplain⟩
      exact ⟨by simpa [isLoneQuote] using hquote, hne, hplain⟩
  rw [hgrammar, WordKind.ofWord?]
  cases isLoneQuote word with
  | true => simp
  | false =>
    cases isSingle (unquoted word) with
    | true => simp
    | false =>
      simp only [Bool.false_eq_true, if_false, and_false, iff_false]
      split <;> simp

/-- A wildcard is not a single path, because of its star. -/
theorem IsWildcardPath.not_isSingle (h : IsWildcardPath path) : isSingle path = false := by
  obtain ⟨directory, name, rfl, -, -, -, hname⟩ := h
  rw [← Bool.not_eq_true, isSingle_iff]
  rintro ⟨-, hplain⟩
  exact hplain '*' (List.mem_append_right _ hname.star_mem) (by simp)

/-- **The scan takes a wildcard for one.** -/
theorem ofWord?_eq_wildcard :
    WordKind.ofWord? word = some .wildcard ↔ IsWildcardPath (unquoted word) := by
  constructor
  · intro h
    rw [WordKind.ofWord?] at h
    split at h
    · cases h
    · split at h
      · cases h
      · next hsingle =>
        generalize hsplit : splitAtLastSlash (unquoted word) = parts at h
        obtain ⟨directory, name⟩ := parts
        obtain ⟨hpath, hdirectory, hname⟩ := splitAtLastSlash_eq_iff.1 hsplit
        simp only at h
        split at h
        · next hwildcard =>
          obtain ⟨hplain, hscan⟩ := Bool.and_eq_true_iff.1 hwildcard
          have hplain : IsUnreserved directory := by
            rcases Bool.or_eq_true_iff.1 hplain with hempty | hplain
            · rw [List.isEmpty_iff.1 hempty]
              exact nofun
            · exact (isSingle_iff.1 hplain).2
          refine ⟨directory, name, hpath, hdirectory, hplain, hname, ?_⟩
          refine (isWildcardName_iff_star.1 hscan).resolve_right ?_
          -- without a star the word would name a single path
          rintro ⟨start, ending, rfl, hstart, hending⟩
          refine hsingle (isSingle_iff.2 ⟨by simp [hpath], fun c hc => ?_⟩)
          simp only [hpath, List.mem_append, List.mem_cons] at hc
          rcases hc with hc | hc | rfl | hc
          · exact hplain c hc
          · exact hstart.unreserved c hc
          · decide
          · exact hending.unreserved c hc
        · cases h
  · intro h
    have hsingle := h.not_isSingle
    have hquote : isLoneQuote word = false := by
      rw [Bool.eq_false_iff]
      intro hquote
      -- a lone quote has no star in it
      obtain ⟨directory, name, hpath, -, -, -, hname⟩ := h
      have hstar : '*' ∈ unquoted word := hpath ▸ List.mem_append_right _ hname.star_mem
      rcases (by simpa [isLoneQuote] using hquote : word = ['\''] ∨ word = ['"']) with rfl | rfl
      · exact absurd hstar (by decide)
      · exact absurd hstar (by decide)
    obtain ⟨directory, name, hpath, hdirectory, hplain, hslash, hname⟩ := h
    have hsplit := splitAtLastSlash_eq_iff.2 ⟨hpath, hdirectory, hslash⟩
    have hscan : isWildcardName name = true := isWildcardName_iff_star.2 (.inl hname)
    have hfirst : (directory.isEmpty || isSingle directory) = true := by
      cases hempty : directory.isEmpty with
      | true => rfl
      | false =>
        rw [Bool.false_or, isSingle_iff]
        exact ⟨by simpa using hempty, hplain⟩
    rw [WordKind.ofWord?]
    simp [hquote, hsingle, hsplit, hscan, hfirst]

/-- **No star stands before the last slash of a wildcard**, quotes or not. -/
theorem IsWildcardPath.star_not_mem (h : IsWildcardPath path) (unwraps : Unwraps word path)
    (hword : word = before ++ '/' :: name) (hname : '/' ∉ name) : '*' ∉ before := by
  obtain ⟨directory, last, rfl, hdirectory, hplain, hlast, -⟩ := h
  have hsplit : splitAtLastSlash word = (before ++ ['/'], name) := by
    rw [hword]
    exact splitAtLastSlash_of_slash hname
  -- up to a quote at its start, what stands before the slash belongs to the directory
  have hstar : '*' ∉ directory := fun hmem => hplain '*' hmem (by simp)
  cases unwraps with
  | bare _ =>
    rw [splitAtLastSlash_eq_iff.2 ⟨rfl, hdirectory, hlast⟩, Prod.mk.injEq] at hsplit
    rw [hsplit.1] at hstar
    exact fun hmem => hstar (List.mem_append_left _ hmem)
  | @pair q quote =>
    have hq : q ≠ '/' ∧ q ≠ '*' := by rcases quote with rfl | rfl <;> decide
    rcases hdirectory with rfl | hslash
    · -- there is no slash at all
      have hmem : '/' ∈ q :: ([] ++ last ++ [q]) := by rw [hword]; simp
      simp [Ne.symm hq.1, hlast] at hmem
    · have hquoted : splitAtLastSlash (q :: (directory ++ last ++ [q])) =
          (q :: directory, last ++ [q]) := by
        refine splitAtLastSlash_eq_iff.2 ⟨by simp, .inr ?_, by simp [hlast, Ne.symm hq.1]⟩
        rw [List.getLast?_cons, hslash]
        rfl
      rw [hquoted, Prod.mk.injEq] at hsplit
      intro hmem
      have hmem : '*' ∈ q :: directory := hsplit.1 ▸ List.mem_append_left _ hmem
      rcases List.mem_cons.1 hmem with hmem | hmem
      · exact hq.2 hmem.symm
      · exact hstar hmem

/-- **What a word stands for is decided by its grammar.** Without one pair of quotes around it, a
word names a single path if it is not empty and is written in plain characters; it is a wildcard if
it is a directory in plain characters with a name with a star behind it; and any other word names
nothing, nor does a quote by itself. No star stands before the last slash of a wildcard. -/
theorem ofWord?_iff_grammar (word : Text) :
    ∃ path, Unwraps word path ∧ (∀ other, Unwraps word other → other = path) ∧
      (WordKind.ofWord? word = some .single ↔ IsSinglePath word path) ∧
      (WordKind.ofWord? word = some .wildcard ↔
        ¬IsSinglePath word path ∧ IsWildcardPath path) ∧
      (WordKind.ofWord? word = none ↔ ¬IsSinglePath word path ∧ ¬IsWildcardPath path) ∧
      (WordKind.ofWord? word = some .wildcard → ∀ before name, word = before ++ '/' :: name →
        '/' ∉ name → '*' ∉ before) := by
  have hsingle : WordKind.ofWord? word = some .single ↔ _ := ofWord?_eq_single
  have hwildcard : WordKind.ofWord? word = some .wildcard ↔ _ := ofWord?_eq_wildcard
  have hboth : IsWildcardPath (unquoted word) → ¬IsSinglePath word (unquoted word) := by
    intro h single
    rw [← hsingle, hwildcard.2 h] at single
    cases single
  refine ⟨unquoted word, unwraps_unquoted word, fun other h => h.eq_unquoted, hsingle, ?_, ?_, ?_⟩
  · rw [hwildcard]
    exact ⟨fun h => ⟨hboth h, h⟩, And.right⟩
  · rw [← hsingle, ← hwildcard]
    rcases WordKind.ofWord? word with _ | _ | _ <;> simp
  · intro h before name hword hname
    exact (hwildcard.1 h).star_not_mem (unwraps_unquoted word) hword hname

end FileShell
