import FileShell.Text.Basic
import Mathlib.Data.List.Basic

/-! # Pieces, lines and the text that lines make

Lines are put together by a newline behind each (`Text.ofLines`). The lines of what comes out are
the same again, as long as none of them holds a newline or ends in a carriage return, which would be
taken for a part of the newline behind it (`Text.lines_ofLines`). -/

namespace FileShell

/-! ## Pieces -/

/-- No separator is left in a piece. -/
theorem not_mem_of_mem_pieces {sep : Char} {t piece : Text} (h : piece ∈ t.pieces sep) :
    sep ∉ piece := by
  induction t generalizing piece with
  | nil =>
    obtain rfl : piece = [] := by simpa [Text.pieces] using h
    exact List.not_mem_nil
  | cons c t ih =>
    -- a separator begins a new piece, any other character belongs to the first one
    rw [Text.pieces, List.splitOnP_cons_eq_if_modifyHead] at h
    split at h
    · rcases List.mem_cons.1 h with rfl | h
      · exact List.not_mem_nil
      · exact ih h
    · next hc =>
      obtain ⟨first, rest, hsplit⟩ : ∃ first rest, t.splitOnP (· == sep) = first :: rest :=
        List.exists_cons_of_ne_nil (List.splitOnP_ne_nil _ t)
      rw [hsplit, List.modifyHead_cons] at h
      rcases List.mem_cons.1 h with rfl | h
      · have hfirst : sep ∉ first := ih (by rw [Text.pieces, hsplit]; exact List.mem_cons_self)
        intro hmem
        rcases List.mem_cons.1 hmem with rfl | hmem
        · exact hc (beq_self_eq_true sep)
        · exact hfirst hmem
      · exact ih (by rw [Text.pieces, hsplit]; exact List.mem_cons_of_mem _ h)

/-- Around a separator stand the pieces of what is before it and those of what is behind it. -/
theorem pieces_append_cons (sep : Char) (t u : Text) :
    Text.pieces sep (t ++ sep :: u) = t.pieces sep ++ u.pieces sep :=
  List.splitOnP_append_cons t u (beq_self_eq_true sep)

namespace Text

/-! ## Lines -/

/-- **The text of lines**: each with a newline behind it. -/
def ofLines (ts : List Text) : Text := ts.flatMap (· ++ ['\n'])

@[simp] theorem ofLines_nil : ofLines [] = [] := rfl

@[simp] theorem ofLines_cons (t : Text) (ts : List Text) :
    ofLines (t :: ts) = t ++ '\n' :: ofLines ts := by
  simp [ofLines]

/-- **A line that a text can tell again**: it has no newline, and it does not end in a carriage
return. -/
def IsPlainLine (t : Text) : Prop := '\n' ∉ t ∧ t.getLast? ≠ some '\r'

instance : DecidablePred IsPlainLine := fun t =>
  inferInstanceAs (Decidable ('\n' ∉ t ∧ t.getLast? ≠ some '\r'))

/-- Without a newline there is one piece. -/
theorem pieces_of_not_mem {sep : Char} {t : Text} (h : sep ∉ t) : pieces sep t = [t] :=
  List.splitOnP_eq_singleton fun _ hc => beq_eq_false_iff_ne.2 (ne_of_mem_of_not_mem hc h)

/-- The text up to the first newline is a line, less one carriage return. -/
theorem lines_append_newline {t : Text} (h : '\n' ∉ t) (rest : Text) :
    lines (t ++ '\n' :: rest) = dropReturn t :: lines rest := by
  obtain ⟨next, later, hrest⟩ : ∃ next later, pieces '\n' rest = next :: later :=
    List.exists_cons_of_ne_nil (List.splitOnP_ne_nil _ rest)
  rw [lines, pieces_append_cons, pieces_of_not_mem h, hrest, List.singleton_append,
    linesOfPieces_cons_cons, lines, hrest]

/-- **The lines of the text of lines** are these lines. -/
theorem lines_ofLines {ts : List Text} (h : ∀ t ∈ ts, IsPlainLine t) : lines (ofLines ts) = ts := by
  induction ts with
  | nil => simp [lines, pieces]
  | cons t ts ih =>
    obtain ⟨hnewline, hreturn⟩ := h t List.mem_cons_self
    rw [ofLines_cons, lines_append_newline hnewline, dropReturn, if_neg hreturn,
      ih fun u hu => h u (List.mem_cons_of_mem _ hu)]

end Text

end FileShell
