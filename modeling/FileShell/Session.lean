import FileShell.Failure
import FileShell.Path.Basic
import FileShell.Path.Glob
import FileShell.Settings.Config
import FileShell.Volume.Basic

/-! # Sessions

A session stands in a working directory and knows a home directory. Words are resolved against the
two (`Session.resolve`), wildcards are matched against the entries of a directory
(`Session.expand`), and the working directory is only ever replaced by an existing directory
(`Session.changeDirectory`). -/

namespace FileShell

/-- **A session.** -/
structure Session where
  /-- The working directory. -/
  cwd : Path
  /-- The home directory. -/
  home : Path
deriving DecidableEq, Repr

namespace Session

/-- The session that starts in a directory. -/
def start (cwd home : Path) : Session := ⟨cwd.normalised, home.normalised⟩

/-- The path that a word names. -/
def resolve (s : Session) (word : Text) : Path := FileShell.resolve s.cwd s.home word

/-- The directory in which a wildcard is looked for, and the pattern of its names. -/
def wildcardParts (s : Session) (word : Text) : Path × Text :=
  let (directory, pattern) := splitAtLastSlash word
  (s.resolve (if directory.isEmpty then ['.'] else directory), pattern)

/-- Whether a path belongs to what a wildcard matches. -/
def inScope (v : Volume) (scope : MatchScope) (p : Path) : Bool :=
  scope = .everything || v.stat p ≠ .directory

/-- **The paths that a wildcard matches**, in the order of the directory's listing. There is at
least one; a wildcard that matches nothing is an error. -/
def expand (s : Session) (v : Volume) (scope : MatchScope) (word : Text) :
    Except PathError (List Path) :=
  let (directory, pattern) := s.wildcardParts word
  match v.names directory with
  | .error _ => .error (.noMatch word)
  | .ok names =>
    let found := ((names.filter (globMatches pattern)).map directory.child).filter
      (inScope v scope)
    if found.isEmpty then .error (.noMatch word) else .ok found

/-- **A wildcard is expanded to its matches** among the names that a listing shows, if there are
any. -/
theorem expand_eq_ok_iff {s : Session} {v : Volume} {scope : MatchScope} {word : Text}
    {paths : List Path} :
    s.expand v scope word = .ok paths ↔ paths ≠ [] ∧
      ∃ names, v.names (s.wildcardParts word).1 = .ok names ∧
        paths = ((names.filter (globMatches (s.wildcardParts word).2)).map
          (s.wildcardParts word).1.child).filter (inScope v scope) := by
  simp only [expand]
  cases v.names (s.wildcardParts word).1 with
  | error e => simp
  | ok names =>
    simp only [Except.ok.injEq, exists_eq_left']
    split
    · next hnone =>
      rw [List.isEmpty_iff] at hnone
      simp [hnone]
    · next hsome =>
      rw [List.isEmpty_iff] at hsome
      constructor
      · intro h
        cases h
        exact ⟨hsome, rfl⟩
      · rintro ⟨-, rfl⟩
        rfl

/-- A wildcard that is not expanded has no match. -/
theorem eq_noMatch_of_expand {s : Session} {v : Volume} {scope : MatchScope} {word : Text}
    {e : PathError} (h : s.expand v scope word = .error e) : e = .noMatch word := by
  simp only [expand] at h
  split at h
  · cases h
    rfl
  · split at h
    · cases h
      rfl
    · cases h

/-- **The session in another working directory**, which has to exist. -/
def changeDirectory (s : Session) (v : Volume) (target : Path) : Except ExecutionError Session :=
  let target := (s.cwd.join target).normalised
  match v.stat target with
  | .directory => .ok { s with cwd := target }
  | .file => .error (.unreachable target .notDirectory)
  | .missing => .error (.unreachable target .missing)

end Session

end FileShell
