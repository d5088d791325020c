import FileShell.Path.Glob
import FileShell.Proofs.Path.Normal
import FileShell.Proofs.Path.WordKinds

/-! # What a pattern matches

A pattern is pieces with stars between them. A name fits it if the name is those pieces with a run
of characters other than newlines in the place of each star (`Fits`). The rows of flags with which a
name is matched find out exactly this, although they never choose where a run ends.

* **`globMatches_append_iff`** — two patterns in a row match two names in a row.
* **`globMatches_iff_fits`** — the matcher finds a name to match if and only if it fits.
* **`ne_nil_of_globMatches`** — a word that is a wildcard matches no empty name. -/

namespace FileShell

/-- **A name fits a pattern** if it is the pieces of the pattern with a run of characters in the
place of each star between them. No run goes over a newline. -/
def Fits (pattern name : Text) : Prop :=
  ∃ first rest runs, pattern.pieces '*' = first :: rest ∧ runs.length = rest.length ∧
    (∀ run ∈ runs, '\n' ∉ run) ∧ name = first ++ (List.zipWith (· ++ ·) runs rest).flatten

variable {p q pattern name : Text} {c : Char}

/-! ## Patterns in a row -/

/-- **A plain character matches itself** and nothing else. -/
theorem globMatches_char_iff (hc : c ≠ '*') : globMatches (c :: q) name = true ↔
    ∃ ending, name = c :: ending ∧ globMatches q ending = true := by
  cases name with
  | nil => simp [globMatches_char_nil hc]
  | cons d name =>
    rw [globMatches_char_cons hc, Bool.and_eq_true, decide_eq_true_eq]
    constructor
    · rintro ⟨rfl, h⟩
      exact ⟨name, rfl, h⟩
    · rintro ⟨ending, hname, h⟩
      obtain ⟨rfl, rfl⟩ : d = c ∧ name = ending := by simpa using hname
      exact ⟨rfl, h⟩

/-- **A star matches a run** of characters other than newlines, of any length. -/
theorem globMatches_star_iff : globMatches ('*' :: q) name = true ↔
    ∃ run ending, name = run ++ ending ∧ '\n' ∉ run ∧ globMatches q ending = true := by
  induction name with
  | nil =>
    rw [globMatches_star_nil]
    constructor
    · intro h
      exact ⟨[], [], rfl, List.not_mem_nil, h⟩
    · rintro ⟨run, ending, hname, -, h⟩
      obtain ⟨rfl, rfl⟩ := List.nil_eq_append_iff.1 hname
      exact h
  | cons d name ih =>
    rw [globMatches_star_cons, Bool.or_eq_true, Bool.and_eq_true, decide_eq_true_eq, ih]
    constructor
    · -- the run ends here, or the character is the first one of it
      rintro (h | ⟨hd, run, ending, rfl, hrun, h⟩)
      · exact ⟨[], d :: name, rfl, List.not_mem_nil, h⟩
      · exact ⟨d :: run, ending, rfl, List.not_mem_cons_of_ne_of_not_mem hd.symm hrun, h⟩
    · rintro ⟨run, ending, hname, hrun, h⟩
      cases run with
      | nil =>
        obtain rfl : d :: name = ending := hname
        exact .inl h
      | cons e run =>
        obtain ⟨rfl, rfl⟩ : d = e ∧ name = run ++ ending := by simpa using hname
        exact .inr ⟨(List.ne_of_not_mem_cons hrun).symm, run, ending, rfl,
          List.not_mem_of_not_mem_cons hrun, h⟩

/-- **A pattern made of two matches a name that is made of two**, each matched by its own part. -/
theorem globMatches_append_iff : globMatches (p ++ q) name = true ↔
    ∃ start ending, name = start ++ ending ∧ globMatches p start = true ∧
      globMatches q ending = true := by
  induction p generalizing name with
  | nil => simp
  | cons c p ih =>
    rw [List.cons_append]
    by_cases hc : c = '*'
    · subst hc
      simp only [globMatches_star_iff, ih]
      constructor
      · rintro ⟨run, rest, rfl, hrun, start, ending, rfl, hstart, hending⟩
        exact ⟨run ++ start, ending, (List.append_assoc ..).symm, ⟨run, start, rfl, hrun, hstart⟩,
          hending⟩
      · rintro ⟨rest, ending, rfl, ⟨run, start, rfl, hrun, hstart⟩, hending⟩
        exact ⟨run, start ++ ending, List.append_assoc .., hrun, start, ending, rfl, hstart,
          hending⟩
    · simp only [globMatches_char_iff hc, ih]
      constructor
      · rintro ⟨rest, rfl, start, ending, rfl, hstart, hending⟩
        exact ⟨c :: start, ending, rfl, ⟨start, rfl, hstart⟩, hending⟩
      · rintro ⟨rest, ending, rfl, ⟨start, rfl, hstart⟩, hending⟩
        exact ⟨start ++ ending, rfl, start, ending, rfl, hstart, hending⟩

/-- A pattern without a star matches itself and nothing else. -/
theorem globMatches_piece_iff (plain : '*' ∉ p) : globMatches p name = true ↔ name = p := by
  induction p generalizing name with
  | nil => simp
  | cons c p ih =>
    have hc : c ≠ '*' := (List.ne_of_not_mem_cons plain).symm
    rw [globMatches_char_iff hc]
    simp only [ih (List.not_mem_of_not_mem_cons plain), exists_eq_right]

/-! ## Pieces with stars between them -/

/-- **Pieces with stars between them match** what has a run in the place of each star. -/
theorem globMatches_joined_iff {first : Text} {rest : List Text}
    (plain : ∀ piece ∈ first :: rest, '*' ∉ piece) :
    globMatches (Text.joined ['*'] (first :: rest)) name = true ↔
      ∃ runs : List Text, runs.length = rest.length ∧ (∀ run ∈ runs, '\n' ∉ run) ∧
        name = first ++ (List.zipWith (· ++ ·) runs rest).flatten := by
  induction rest generalizing first name with
  | nil =>
    rw [Text.joined_singleton, globMatches_piece_iff (plain first List.mem_cons_self)]
    constructor
    · rintro rfl
      exact ⟨[], rfl, List.forall_mem_nil _, (List.append_nil _).symm⟩
    · rintro ⟨runs, -, -, rfl⟩
      rw [List.zipWith_nil_right, List.flatten_nil, List.append_nil]
  | cons second rest ih =>
    have hfirst : '*' ∉ first := plain first List.mem_cons_self
    have hrest : ∀ piece ∈ second :: rest, '*' ∉ piece :=
      fun piece hpiece => plain piece (List.mem_cons_of_mem _ hpiece)
    rw [Text.joined_cons_cons, List.append_assoc, globMatches_append_iff]
    constructor
    · rintro ⟨start, others, rfl, hstart, h⟩
      obtain rfl : start = first := (globMatches_piece_iff hfirst).1 hstart
      obtain ⟨run, ending, rfl, hrun, hending⟩ := globMatches_star_iff.1 h
      obtain ⟨runs, hlength, hruns, rfl⟩ := (ih hrest).1 hending
      refine ⟨run :: runs, congrArg Nat.succ hlength,
        List.forall_mem_cons.2 ⟨hrun, hruns⟩, ?_⟩
      simp
    · rintro ⟨runs, hlength, hruns, rfl⟩
      cases runs with
      | nil => cases hlength
      | cons run runs =>
        obtain ⟨hrun, hruns⟩ := List.forall_mem_cons.1 hruns
        have hending : globMatches (Text.joined ['*'] (second :: rest))
            (second ++ (List.zipWith (· ++ ·) runs rest).flatten) = true :=
          (ih hrest).2 ⟨runs, Nat.succ.inj hlength, hruns, rfl⟩
        refine ⟨first, _, rfl, (globMatches_piece_iff hfirst).2 rfl, globMatches_star_iff.2 ?_⟩
        exact ⟨run, _, by simp, hrun, hending⟩

/-- The pieces of a pattern and the stars between them are the pattern. -/
theorem joined_pieces (sep : Char) (t : Text) : Text.joined [sep] (t.pieces sep) = t :=
  List.intercalate_splitOn sep

/-- **The matcher finds a name to match if and only if it fits.** -/
theorem globMatches_iff_fits : globMatches pattern name = true ↔ Fits pattern name := by
  obtain ⟨first, rest, hpieces⟩ : ∃ first rest, pattern.pieces '*' = first :: rest :=
    List.exists_cons_of_ne_nil (List.splitOnP_ne_nil _ pattern)
  have plain : ∀ piece ∈ first :: rest, '*' ∉ piece :=
    fun piece hpiece => not_mem_of_mem_pieces (hpieces ▸ hpiece)
  have hpattern : pattern = Text.joined ['*'] (first :: rest) := by
    rw [← hpieces, joined_pieces]
  rw [Fits, hpieces]
  constructor
  · intro h
    obtain ⟨runs, hruns⟩ := (globMatches_joined_iff plain).1 (hpattern ▸ h)
    exact ⟨first, rest, runs, rfl, hruns⟩
  · rintro ⟨first', rest', runs, heq, hruns⟩
    obtain ⟨rfl, rfl⟩ := List.cons.inj heq
    rw [hpattern]
    exact (globMatches_joined_iff plain).2 ⟨runs, hruns⟩

/-- Whether a name fits a pattern is found out by the matcher. -/
instance (pattern : Text) : DecidablePred (Fits pattern) :=
  fun _ => decidable_of_iff _ globMatches_iff_fits

/-- **A pattern matches the names that fit it, and no others.** A name matches if runs of characters
without a newline can be put in the place of the stars so that the pattern becomes the name, which
is read from its start to its end. Any character other than the star matches itself: the name has
that very character, what stands before it matches what stands before it in the pattern, and what
follows matches what follows. -/
theorem globMatches_fills_stars (pattern name : Text) :
    (globMatches pattern name = true ↔ Fits pattern name) ∧
      ∀ before c after, pattern = before ++ c :: after → c ≠ '*' →
        (globMatches pattern name = true ↔
          ∃ start ending, name = start ++ c :: ending ∧ globMatches before start = true ∧
            globMatches after ending = true) := by
  refine ⟨globMatches_iff_fits, ?_⟩
  rintro before c after rfl hc
  rw [globMatches_append_iff]
  constructor
  · rintro ⟨start, others, rfl, hstart, h⟩
    obtain ⟨ending, rfl, hending⟩ := (globMatches_char_iff hc).1 h
    exact ⟨start, ending, rfl, hstart, hending⟩
  · rintro ⟨start, ending, rfl, hstart, hending⟩
    exact ⟨start, c :: ending, rfl, hstart, (globMatches_char_iff hc).2 ⟨ending, rfl, hending⟩⟩

/-- The first star must not take the longest run here, and no star takes a newline. -/
example : Fits "*b*bc".toList "bbc".toList ∧ ¬Fits "a*c".toList "ab\nc".toList := by
  decide +kernel

/-! ## Names that match -/

/-- **A plain character of a pattern stands in every name that matches.** -/
theorem mem_of_globMatches (h : globMatches pattern name = true) (hmem : c ∈ pattern)
    (hc : c ≠ '*') : c ∈ name := by
  obtain ⟨before, after, rfl⟩ := List.append_of_mem hmem
  obtain ⟨start, others, rfl, -, hothers⟩ := globMatches_append_iff.1 h
  obtain ⟨ending, rfl, -⟩ := (globMatches_char_iff hc).1 hothers
  exact List.mem_append_right _ List.mem_cons_self

/-- **A word that is a wildcard matches no empty name**, because of its dot. -/
theorem ne_nil_of_globMatches {word : Text} (hword : WordKind.ofWord? word = some .wildcard)
    (h : globMatches (splitAtLastSlash word).2 name = true) : name ≠ [] := by
  obtain ⟨directory, last, hpath, hdirectory, -, hlast, hstar⟩ := ofWord?_eq_wildcard.1 hword
  have hcut : splitAtLastSlash (unquoted word) = (directory, last) :=
    splitAtLastSlash_eq_iff.2 ⟨hpath, hdirectory, hlast⟩
  have hdot : '.' ∈ (splitAtLastSlash word).2 :=
    mem_lastName_of_unquoted (by rw [hcut]; exact hstar.dot_mem)
  exact List.ne_nil_of_mem (mem_of_globMatches h hdot (by decide))

end FileShell
