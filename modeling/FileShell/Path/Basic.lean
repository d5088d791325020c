import FileShell.Text.Shown

/-! # Paths

A path is a text whose slashes separate parts. Its text is kept as it was written, since messages
show it; what it means is read off its **parts** (`Path.parts`): empty pieces and dots between
slashes mean nothing.

* **`p.join q`** — `q` as seen from `p`; an absolute `q` stands alone.
* **`p.normalised`** — no dots, no empty pieces, and every `..` carried out on the text alone, as a
  stack of names (`Part.onto`) that cannot be popped below its bottom.
* **`resolve cwd home word`** — the path that a word on a line names. -/

namespace FileShell

/-- **A path**, by its text. -/
structure Path where
  /-- The text as it was written. -/
  text : Text
deriving DecidableEq, Repr

/-- One part of a path. -/
inductive Part
  /-- The slash at the start of an absolute path. -/
  | root
  /-- A dot at the start of a relative path. -/
  | here
  /-- Two dots. -/
  | up
  /-- The name of an entry. -/
  | name (name : Text)
deriving DecidableEq, Repr

/-- The part that a piece between slashes stands for, if it stands for any. -/
def Part.ofPiece? (piece : Text) : Option Part :=
  if piece = [] ∨ piece = ['.'] then none
  else if piece = ['.', '.'] then some .up
  else some (.name piece)

/-- **The names left after one more part**: a name is put on top, two dots take the top away. -/
def Part.onto (names : List Text) : Part → List Text
  | .root => names
  | .here => names
  | .up => names.dropLast
  | .name n => names ++ [n]

namespace Path

/-- Whether a path starts at the root. -/
def isAbsolute (p : Path) : Bool := p.text.head? = some '/'

/-- **The parts of a path.** -/
def parts (p : Path) : List Part :=
  let pieces := p.text.pieces '/'
  let body := pieces.filterMap Part.ofPiece?
  if p.isAbsolute then .root :: body
  else if pieces.head? = some ['.'] then .here :: body
  else body

/-- The name at the end of a path, if it ends in one. -/
def fileName? (p : Path) : Option Text :=
  match p.parts.getLast? with
  | some (.name n) => some n
  | _ => none

/-- **A path as seen from another one.** -/
def join (p q : Path) : Path :=
  if q.isAbsolute then q
  else if p.text.isEmpty || p.text.getLast? = some '/' then ⟨p.text ++ q.text⟩
  else ⟨p.text ++ '/' :: q.text⟩

/-- The path of an entry in a directory. -/
def child (directory : Path) (name : Text) : Path := directory.join ⟨name⟩

/-- The absolute path through the given names. -/
def ofNames (names : List Text) : Path := ⟨'/' :: Text.joined ['/'] names⟩

/-- The names that a path comes down to when each `..` takes away the name before it. -/
def names (p : Path) : List Text := p.parts.foldl Part.onto []

/-- **A path with every dot carried out**, on its text alone. A `..` with no name before it is
dropped. -/
def normalised (p : Path) : Path :=
  if p.isAbsolute then ofNames p.names else ⟨Text.joined ['/'] p.names⟩

/-- A path as messages name it: by the name at its end, or whole if it does not end in a name. -/
def shownName (p : Path) : Text :=
  match p.fileName? with
  | some n => shown n
  | none => p.text

/-- A path as a listing names it, with nothing quoted. -/
def listedName (p : Path) : Text := p.fileName?.getD p.text

end Path

/-! ## From words to paths

A word is resolved against the working directory and the home directory, by its text alone: no file
is looked at. -/

/-- **A word with a leading tilde replaced** by the home directory. Only a tilde that is the whole
word or stands before a slash counts. -/
def expandTilde (home : Path) : Text → Path
  | ['~'] => home
  | '~' :: '/' :: rest => ⟨home.text ++ '/' :: rest⟩
  | word => ⟨word⟩

/-- A word without such a tilde stays as it is. -/
theorem expandTilde_of_plain (home : Path) {word : Text} (alone : word ≠ ['~'])
    (leading : ∀ rest, word ≠ '~' :: '/' :: rest) : expandTilde home word = ⟨word⟩ := by
  rw [expandTilde.eq_3 home word alone leading]

/-- **The path that a word names**, from a working directory and a home directory. -/
def resolve (cwd home : Path) (word : Text) : Path :=
  (cwd.join (expandTilde home word)).normalised

end FileShell
