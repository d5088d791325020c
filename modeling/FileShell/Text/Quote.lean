import FileShell.Text.Basic

/-! # Quotes

Both quote characters work alike: one opens a run of text that is taken as it stands, and only the
same character closes it. Every scanner of a line keeps a **quote state**, the quote that is open if
one is, and moves it on with `quoteAfter`. -/

namespace FileShell

/-- Whether a character is one of the two quote characters. -/
def isQuote (c : Char) : Bool := c = '\'' || c = '"'

/-- **The quote state after a character**: the quote that is open then, if one is. -/
def quoteAfter (open? : Option Char) (c : Char) : Option Char :=
  match open? with
  | none => if isQuote c then some c else none
  | some q => if c = q then none else some q

@[simp] theorem quoteAfter_none (c : Char) :
    quoteAfter none c = if isQuote c then some c else none := rfl

@[simp] theorem quoteAfter_some (q c : Char) :
    quoteAfter (some q) c = if c = q then none else some q := rfl

/-- **A word without one pair of equal quotes around it**, if it has such a pair. -/
def unquoted : Text → Text
  | [] => []
  | q :: rest => if isQuote q ∧ rest.getLast? = some q then rest.dropLast else q :: rest

@[simp] theorem unquoted_nil : unquoted [] = [] := rfl

/-- One character is left as it is, also when it is a quote. -/
@[simp] theorem unquoted_singleton (c : Char) : unquoted [c] = [c] := by simp [unquoted]

end FileShell
