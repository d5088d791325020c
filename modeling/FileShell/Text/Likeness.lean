import FileShell.Number.Binary

/-! # How much two texts are alike

The likeness of two texts is a number from zero to one (`Text.likeness`). Equal characters are
paired off, from left to right, if they are not too far apart; the likeness is the mean of three
shares: of the first text that is paired, of the second one, and of the pairs that are in order. -/

namespace FileShell.Text

/-- How far apart equal characters of texts of these lengths may be paired: less than half the
longer text. -/
def reach (m n : Nat) : Nat := max m n / 2 - 1

/-- A character at an index paired with the first equal one within reach that is still free, in the
part of the other text from an index on, whose paired characters are marked. -/
def pairOne (reach index : Nat) (c : Char) :
    (start : Nat) → List (Char × Bool) → Option (List (Char × Bool))
  | _, [] => none
  | start, (d, paired) :: rest =>
    if index ≤ start + reach ∧ start ≤ index + reach ∧ c = d ∧ !paired then
      some ((d, true) :: rest)
    else (pairOne reach index c (start + 1) rest).map ((d, paired) :: ·)

/-- **The characters paired off**: those of a text from an index on, in order, and the other text
with its own marked. -/
def pairAll (reach : Nat) : (index : Nat) → Text → List (Char × Bool) → Text × List (Char × Bool)
  | _, [], other => ([], other)
  | index, c :: rest, other =>
    match pairOne reach index c 0 other with
    | none => pairAll reach (index + 1) rest other
    | some marked =>
      let (paired, last) := pairAll reach (index + 1) rest marked
      (c :: paired, last)

/-- **The likeness of two texts.** Where the paired characters of the two texts differ in order,
every two of them count as one pair out of order. -/
def likeness (s t : Text) : Binary :=
  let (mine, marked) := pairAll (reach s.length t.length) 0 s (t.map (·, false))
  let theirs := (marked.filter (·.2)).map (·.1)
  let pairs := mine.length
  let swapped := ((mine.zip theirs).countP fun pair => pair.1 ≠ pair.2) / 2
  if pairs = 0 then .zero
  else
    (((Binary.nearest pairs s.length).plus (.nearest pairs t.length)).plus
      (.nearest (pairs - swapped) pairs)).dividedBy 3

/-- A text with a letter left out is much like it. -/
example : Binary.isLess (.nearest 9 10) (likeness "versio".toList "version".toList) = true := by
  decide +kernel

/-- Texts without a common letter are not alike at all. -/
example : likeness "foo".toList "help".toList = .zero := by decide +kernel

end FileShell.Text
