import FileShell.Text.Basic

/-! # Words as messages show them

A message quotes a word that holds a blank or a character with a meaning on a command line, so that
the word can be copied back into a shell. Three **styles** of writing are known: plain, in single
quotes and in double quotes. Each character rules some styles out (`Styles.ofChar`). A word is cut
greedily into chunks, each as long as one style can write it (`shownFrom`), and a chunk takes the
first style left to it in the order plain, single, double (`Styles.write`). -/

namespace FileShell

/-- The styles that can still write a chunk. -/
structure Styles where
  /-- As it stands. -/
  plain : Bool
  /-- Between single quotes. -/
  single : Bool
  /-- Between double quotes, some characters behind a backslash. -/
  double : Bool
deriving DecidableEq, Repr

namespace Styles

/-- The punctuation that stands for itself outside quotes. -/
def plainPunctuation : List Char := ['+', '-', '.', '/', ':', '@', ']', '_']

/-- The characters that cannot stand between single quotes. -/
def singleExceptions : List Char := ['\'', '^', '\\']

/-- The characters that cannot stand between double quotes. -/
def doubleExceptions : List Char := ['\x60', '$', '!', '^']

/-- The characters that stand between double quotes behind a backslash. -/
def doubleEscapes : List Char := ['$', '\x60', '"', '\\']

/-- The styles that can write one character. -/
def ofChar (c : Char) : Styles where
  plain := c.isAlphanum || plainPunctuation.contains c
  single := !singleExceptions.contains c
  double := !doubleExceptions.contains c

/-- The styles common to both. -/
def meet (s t : Styles) : Styles := ⟨s.plain && t.plain, s.single && t.single, s.double && t.double⟩

/-- Whether no style is left. -/
def isNone (s : Styles) : Bool := !(s.plain || s.single || s.double)

/-- The styles of a chunk that begins with the character: a caret can only begin one in single
quotes, and it can stand nowhere else. -/
def start (c : Char) : Styles := if c = '^' then ⟨false, true, false⟩ else ofChar c

/-- A character between double quotes. -/
def escaped (c : Char) : Text :=
  if doubleEscapes.contains c then ['\\', c] else [c]

/-- **A chunk in the first style left to it.** -/
def write (s : Styles) (chunk : Text) : Text :=
  if s.plain then chunk
  else if s.single then '\'' :: chunk ++ ['\'']
  else '"' :: chunk.flatMap escaped ++ ['"']

end Styles

/-- The chunks of the rest of a word, written one after the other: `chunk` is the open chunk, and
`s` holds the styles left to it. -/
def shownFrom (s : Styles) (chunk : Text) : Text → Text
  | [] => s.write chunk
  | c :: rest =>
    let s' := s.meet (Styles.ofChar c)
    if s'.isNone then s.write chunk ++ shownFrom (Styles.start c) [c] rest
    else shownFrom s' (chunk ++ [c]) rest

/-- **A word as messages show it.** An empty word is a pair of single quotes, and one with the
character of code 0, which no style can write, is shown as it is. -/
def shown : Text → Text
  | [] => ['\'', '\'']
  | c :: rest =>
    if '\x00' ∈ c :: rest then c :: rest else shownFrom (Styles.start c) [c] rest

@[simp] theorem shown_nil : shown [] = ['\'', '\''] := rfl

end FileShell
