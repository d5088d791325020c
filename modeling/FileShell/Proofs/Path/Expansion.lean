import FileShell.Proofs.Path.Patterns
import FileShell.Session

/-! # What wildcards are expanded to

A word is cut after its last slash. What stands before the cut names a directory, and what stands
behind it is a pattern, which picks names out of the directory's listing (`Session.chosen`). The
paths of these are what the word is expanded to, in the order of the listing and each as often as it
stands there.

* **`Session.expand_eq_ok_iff_chosen`** — a wildcard is expanded to what is chosen from a listing.
* **`expand_exactly`** — nothing else is found, and nothing is lost. -/

namespace FileShell

/-! ## What is chosen -/

namespace Session

/-- The directory that the part of a word up to its last slash names. A word without a slash is about
the working directory. -/
def directoryNamed (s : Session) (part : Text) : Path := s.resolve (if part = [] then ['.'] else part)

/-- **The paths that are chosen from the names in a directory**: those of names that fit the pattern
and, if directories are left out, lead to none. -/
def chosen (v : Volume) (scope : MatchScope) (directory : Path) (pattern : Text)
    (names : List Text) : List Path :=
  (names.filter fun n => Fits pattern n ∧
    (scope = .filesOnly → v.stat (directory.child n) ≠ .directory)).map directory.child

variable {s : Session} {v : Volume} {scope : MatchScope} {word part pattern : Text}
  {directory : Path} {names : List Text} {paths : List Path}

/-- A directory's path has its dots carried out, whatever word names it. -/
theorem normalised_directoryNamed (s : Session) (part : Text) :
    (s.directoryNamed part).normalised = s.directoryNamed part :=
  Path.normalised_normalised _

/-- What matches the pattern and is in scope is what is chosen. -/
theorem filter_inScope_eq_chosen :
    ((names.filter (globMatches pattern)).map directory.child).filter (inScope v scope) =
      chosen v scope directory pattern names := by
  rw [chosen, List.filter_map, List.filter_filter]
  congr 1
  refine List.filter_congr fun n _ => ?_
  rw [Function.comp_apply, Bool.and_comm, Bool.decide_and]
  congr 1
  · rw [Bool.eq_iff_iff, decide_eq_true_eq, globMatches_iff_fits]
  · cases scope <;> simp [inScope]

/-- Without directories, what is chosen are the other things that are chosen. -/
theorem chosen_filesOnly : chosen v .filesOnly directory pattern names =
    (chosen v .everything directory pattern names).filter (v.stat · ≠ .directory) := by
  rw [chosen, chosen, List.filter_map, List.filter_filter]
  congr 1
  refine List.filter_congr fun n _ => ?_
  simp [Bool.and_comm]

/-! ## Expansion -/

/-- The parts of a word are those around its last slash. -/
theorem wildcardParts_eq (cut : splitAtLastSlash word = (part, pattern)) :
    s.wildcardParts word = (s.directoryNamed part, pattern) := by
  simp [wildcardParts, cut, directoryNamed]

/-- **A wildcard is expanded to what is chosen** from the listing of its directory, if anything
is. -/
theorem expand_eq_ok_iff_chosen (cut : splitAtLastSlash word = (part, pattern)) :
    s.expand v scope word = .ok paths ↔ paths ≠ [] ∧
      ∃ names, v.names (s.directoryNamed part) = .ok names ∧
        paths = chosen v scope (s.directoryNamed part) pattern names := by
  rw [expand_eq_ok_iff, wildcardParts_eq cut]
  simp only [filter_inScope_eq_chosen]

/-- A directory that shows its names makes the expansion. -/
theorem expand_of_names (cut : splitAtLastSlash word = (part, pattern))
    (shown : v.names (s.directoryNamed part) = .ok names) :
    s.expand v scope word =
      if chosen v scope (s.directoryNamed part) pattern names = [] then .error (.noMatch word)
      else .ok (chosen v scope (s.directoryNamed part) pattern names) := by
  split
  · next hnone =>
    cases hexpand : s.expand v scope word with
    | error e => rw [eq_noMatch_of_expand hexpand]
    | ok paths =>
      obtain ⟨hne, names', hnames, rfl⟩ := (expand_eq_ok_iff_chosen cut).1 hexpand
      obtain rfl : names' = names := Except.ok.inj (hnames.symm.trans shown)
      exact absurd hnone hne
  · next hsome =>
    exact (expand_eq_ok_iff_chosen cut).2 ⟨hsome, names, shown, rfl⟩

/-- Without a listing nothing is found. -/
theorem expand_of_error {e : FileError} (cut : splitAtLastSlash word = (part, pattern))
    (failed : v.names (s.directoryNamed part) = .error e) :
    s.expand v scope word = .error (.noMatch word) := by
  cases hexpand : s.expand v scope word with
  | error e => rw [eq_noMatch_of_expand hexpand]
  | ok paths =>
    obtain ⟨-, names, hnames, -⟩ := (expand_eq_ok_iff_chosen cut).1 hexpand
    rw [failed] at hnames
    cases hnames

/-- **What a wildcard finds among legal names** are direct children of the directory, by paths
without dots. -/
theorem child_of_chosen (cut : splitAtLastSlash word = (part, pattern))
    (wildcard : WordKind.ofWord? word = some .wildcard)
    (normal : directory.normalised = directory)
    (legal : ∀ n ∈ names, n ≠ ['.'] ∧ n ≠ ['.', '.'] ∧ '/' ∉ n) :
    ∀ p ∈ chosen v scope directory pattern names, ∃ n ∈ names, p = directory.child n ∧
      p.normalised = p ∧ p.names = directory.names ++ [n] ∧
      p.isAbsolute = directory.isAbsolute := by
  intro p hp
  obtain ⟨n, hn, rfl⟩ := List.mem_map.1 hp
  obtain ⟨hmem, hchosen⟩ := List.mem_filter.1 hn
  have hmatch : globMatches (splitAtLastSlash word).2 n = true := by
    rw [cut, globMatches_iff_fits]
    exact (decide_eq_true_eq.mp hchosen).1
  -- a listing may show an empty name, but no wildcard matches it
  have hname : IsName n := ⟨ne_nil_of_globMatches wildcard hmatch, legal n hmem⟩
  exact ⟨n, hmem, rfl, Path.normalised_child normal hname⟩

end Session

/-- **A wildcard is expanded exactly to what it matches.** The part of a word up to its last slash
names a directory, and the rest of it is a pattern. If the directory's listing shows names, then the
word is expanded to the paths of those that fit the pattern, less the directories if these are left
out, in the order of the listing and each as often as it is listed. If there are none or the listing
fails, the word has no match. No expansion is empty. Leaving directories out takes the directories
away from what is found otherwise, and nothing else. What a wildcard finds in a listing of legal
names are direct children of the directory, by paths that have their dots carried out and are
absolute in an absolute working directory. -/
theorem expand_exactly (s : Session) (v : Volume) {word part pattern : Text}
    (cut : word = part ++ pattern) (slash : part = [] ∨ part.getLast? = some '/')
    (last : '/' ∉ pattern) :
    (∀ scope names, v.names (s.directoryNamed part) = .ok names →
      s.expand v scope word =
        if Session.chosen v scope (s.directoryNamed part) pattern names = [] then
          .error (.noMatch word)
        else .ok (Session.chosen v scope (s.directoryNamed part) pattern names)) ∧
      (∀ scope e, v.names (s.directoryNamed part) = .error e →
        s.expand v scope word = .error (.noMatch word)) ∧
      (∀ scope, s.expand v scope word ≠ .ok []) ∧
      (∀ paths, s.expand v .filesOnly word = .ok paths ↔
        paths ≠ [] ∧ ∃ all, s.expand v .everything word = .ok all ∧
          paths = all.filter (v.stat · ≠ .directory)) ∧
      (WordKind.ofWord? word = some .wildcard → ∀ names,
        v.names (s.directoryNamed part) = .ok names →
        (∀ n ∈ names, n ≠ ['.'] ∧ n ≠ ['.', '.'] ∧ '/' ∉ n) →
        ∀ scope paths, s.expand v scope word = .ok paths → ∀ p ∈ paths,
          ∃ n ∈ names, p = (s.directoryNamed part).child n ∧ p.normalised = p ∧
            p.names = (s.directoryNamed part).names ++ [n] ∧
            (s.cwd.isAbsolute = true → p.isAbsolute = true)) := by
  have hcut : splitAtLastSlash word = (part, pattern) :=
    splitAtLastSlash_eq_iff.2 ⟨cut, slash, last⟩
  refine ⟨fun scope names => Session.expand_of_names hcut,
    fun scope e => Session.expand_of_error hcut, ?_, ?_, ?_⟩
  · intro scope h
    exact (Session.expand_eq_ok_iff.1 h).1 rfl
  · intro paths
    rw [Session.expand_eq_ok_iff_chosen hcut]
    simp only [Session.expand_eq_ok_iff_chosen hcut, Session.chosen_filesOnly]
    constructor
    · rintro ⟨hne, names, hnames, rfl⟩
      refine ⟨hne, _, ⟨?_, names, hnames, rfl⟩, rfl⟩
      intro hnone
      exact hne (by rw [hnone, List.filter_nil])
    · rintro ⟨hne, all, ⟨-, names, hnames, rfl⟩, rfl⟩
      exact ⟨hne, names, hnames, rfl⟩
  · intro wildcard names hnames legal scope paths hpaths p hp
    obtain ⟨-, names', hnames', rfl⟩ := (Session.expand_eq_ok_iff_chosen hcut).1 hpaths
    obtain rfl : names' = names := Except.ok.inj (hnames'.symm.trans hnames)
    obtain ⟨n, hn, hchild, hnormal, hpath, habsolute⟩ :=
      Session.child_of_chosen hcut wildcard (s.normalised_directoryNamed part) legal p hp
    refine ⟨n, hn, hchild, hnormal, hpath, fun absolute => ?_⟩
    rw [habsolute]
    exact (isNormal_resolve absolute _).isAbsolute

/-- A name that is listed twice is found twice, and a directory is found only where it is wanted. -/
theorem expand_exactly_repeated :
    let s : Session := ⟨⟨"/w".toList⟩, ⟨['/']⟩⟩
    let names : List Text := ["b.t".toList, "s.t".toList, "a".toList, "b.t".toList]
    let v : Volume :=
      { tree := ⟨[([['w']], .directory), ([['w'], "s.t".toList], .directory)]⟩
        interference := ⟨fun _ _ => none, fun _ => some names⟩ }
    "./*.t".toList = "./".toList ++ "*.t".toList ∧
      s.expand v .filesOnly "./*.t".toList = .ok [⟨"/w/b.t".toList⟩, ⟨"/w/b.t".toList⟩] ∧
      s.expand v .everything "./*.t".toList =
        .ok [⟨"/w/b.t".toList⟩, ⟨"/w/s.t".toList⟩, ⟨"/w/b.t".toList⟩] := by
  intro s names v
  have cut : "./*.t".toList = "./".toList ++ "*.t".toList := rfl
  obtain ⟨hnames, -⟩ :=
    expand_exactly s v cut (.inr (by decide)) (by decide)
  refine ⟨cut, ?_, ?_⟩
  · rw [hnames .filesOnly names rfl]
    decide +kernel
  · rw [hnames .everything names rfl]
    decide +kernel

end FileShell
