import FileShell.Number.Binary

/-! # Paging through lines

A pager stands at an offset in a list of lines: so many of them were shown from the top. A key shows
one line or one page more, or goes back by two pages and shows one, so that the page before the
current one is seen again. Under a page it says how much of the text was shown, in percent: a
quotient of two counts times a hundred, each step rounded to a binary number, with two decimals that
are rounded once more from the exact binary value. -/

namespace FileShell

/-- **The share of a whole in percent.** All of nothing is everything. -/
def percent (part whole : Nat) : Binary :=
  if whole = 0 then Binary.nearest 100 1 else (Binary.nearest part whole).times 100

/-- **A pager.** -/
structure Pager where
  /-- The lines of the text. -/
  lines : List Text
  /-- How many lines were shown, counted from the top. -/
  offset : Nat
  /-- The lines of a page, at least one. -/
  pageSize : Nat
deriving DecidableEq, Repr

/-- What the user wants to see next. -/
inductive Key
  /-- One line more. -/
  | line
  /-- One page more. -/
  | page
  /-- The page before. -/
  | back
  /-- Nothing any more. -/
  | quit
deriving DecidableEq, Repr

/-- **The key that a typed line stands for**, if it is one. -/
def Key.ofInput? (t : Text) : Option Key :=
  if t = [] then some .line
  else if t = [' '] then some .page
  else if t = ['b'] then some .back
  else if t = ['q'] then some .quit
  else none

namespace Pager

/-- The pager at the top of a text. A page has at least one line. -/
def start (lines : List Text) (pageSize : Nat) : Pager := ⟨lines, 0, max pageSize 1⟩

/-- Whether all lines were shown. -/
def isDone (p : Pager) : Bool := p.lines.length ≤ p.offset

/-- The share of the lines that was shown. -/
def share (p : Pager) : Binary := percent p.offset p.lines.length

/-- **More lines shown**: at most `count`, and no more than there are. -/
def advance (p : Pager) (count : Nat) : List Text × Pager :=
  let stop := min (p.offset + count) p.lines.length
  ((p.lines.take stop).drop p.offset, { p with offset := stop })

/-- The first page. -/
def firstPage (p : Pager) : List Text × Pager := p.advance p.pageSize

/-- How far the pager goes back before it shows a page: two pages, counted in a machine word. -/
def rewind (p : Pager) : Nat := 2 * p.pageSize % UInt64.size

/-- **What a key shows**, nothing if the user quits. -/
def apply (p : Pager) : Key → Option (List Text) × Pager
  | .line => let (shown, next) := p.advance 1; (some shown, next)
  | .page => let (shown, next) := p.advance p.pageSize; (some shown, next)
  | .back =>
    let (shown, next) := { p with offset := p.offset - p.rewind }.advance p.pageSize
    (some shown, next)
  | .quit => (none, p)

/-- The prompt under a page. -/
def prompt (p : Pager) : Text :=
  "Displayed ".toList ++ p.share.text ++
    ("% of text, Space: next page, Enter: next line, b: previous page, q: exit : ").toList

end Pager

end FileShell
