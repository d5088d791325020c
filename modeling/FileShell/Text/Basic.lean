/-! # Texts

Lines, words, names, messages and file contents are texts, that is lists of characters, so that
every scanner below is a recursion on its input. This file holds the few operations that all of them
share:

* **`Text.pieces sep t`** — the pieces of `t` between the separators, one more than there are
  separators; `Text.joined` puts pieces together again.
* **`Text.lines t`** — the lines of a text, as the pager and the console count them.
* **`Text.ofNat n`** — a number in decimal digits.
* **`Text.bytes t`** — the bytes of a text in a file, read back by `textOfBytes?`. -/

namespace FileShell

/-- **A text**: the characters of a line, a word, a name, a message or a file. -/
abbrev Text := List Char

namespace Text

/-! ## Pieces and joins -/

/-- **The pieces of a text between separators.** There is always at least one, and a separator at
either end leaves an empty piece there. -/
def pieces (sep : Char) (t : Text) : List Text := t.splitOnP (· == sep)

/-- Pieces with the text `sep` between each two. -/
def joined (sep : Text) (ts : List Text) : Text := sep.intercalate ts

@[simp] theorem joined_nil (sep : Text) : joined sep [] = [] := rfl

@[simp] theorem joined_singleton (sep t : Text) : joined sep [t] = t := by
  simp [joined, List.intercalate]

@[simp] theorem joined_cons_cons (sep t u : Text) (ts : List Text) :
    joined sep (t :: u :: ts) = t ++ sep ++ joined sep (u :: ts) := by
  simp [joined, List.intercalate_cons_cons]

/-! ## Lines -/

/-- A text without the carriage return at its end, if it has one there. -/
def dropReturn (t : Text) : Text := if t.getLast? = some '\r' then t.dropLast else t

/-- The lines among the pieces between newlines: a piece that a newline ends is a line, less one
carriage return; the last piece is a line if it is not empty. -/
def linesOfPieces : List Text → List Text
  | [] => []
  | [last] => if last = [] then [] else [last]
  | piece :: next :: rest => dropReturn piece :: linesOfPieces (next :: rest)

@[simp] theorem linesOfPieces_singleton (t : Text) :
    linesOfPieces [t] = if t = [] then [] else [t] := rfl

@[simp] theorem linesOfPieces_cons_cons (t u : Text) (ts : List Text) :
    linesOfPieces (t :: u :: ts) = dropReturn t :: linesOfPieces (u :: ts) := rfl

/-- **The lines of a text.** A newline, with or without a carriage return before it, ends a line;
what follows the last newline is a line if there is anything. -/
def lines (t : Text) : List Text := linesOfPieces (pieces '\n' t)

/-- A text less one newline at its end, the form in which an output is shown. -/
def dropFinalNewline (t : Text) : Text := if t.getLast? = some '\n' then t.dropLast else t

/-! ## Numbers -/

/-- A number in decimal digits. -/
def ofNat (n : Nat) : Text := Nat.toDigits 10 n

/-- A number in decimal digits, filled up with zeros on the left to the given width. -/
def padded (width n : Nat) : Text :=
  let digits := ofNat n
  List.replicate (width - digits.length) '0' ++ digits

/-- A number in capital hexadecimal digits, filled up with zeros on the left to the given width. -/
def hexPadded (width n : Nat) : Text :=
  let digits := (Nat.toDigits 16 n).map Char.toUpper
  List.replicate (width - digits.length) '0' ++ digits

end Text

/-! ## Bytes

Files hold bytes. A text is written in UTF-8, and bytes are read as a text only if they are
UTF-8. -/

/-- The bytes of a text. -/
def Text.bytes (t : Text) : ByteArray := (String.ofList t).toByteArray

/-- **The text that bytes hold**, if they are UTF-8. -/
def textOfBytes? (bytes : ByteArray) : Option Text := (String.fromUTF8? bytes).map String.toList

/-- What was written as a text is read as that text. -/
@[simp] theorem textOfBytes?_bytes (t : Text) : textOfBytes? t.bytes = some t := by
  have h : String.fromUTF8? (String.ofList t).toByteArray = some (String.ofList t) := by
    have hv : (String.ofList t).toByteArray.IsValidUTF8 := (String.ofList t).isValidUTF8
    simp only [String.fromUTF8?, hv, dif_pos, Option.some.injEq]
    exact String.toByteArray_inj.1 rfl
  rw [textOfBytes?, Text.bytes, h, Option.map_some, String.toList_ofList]

/-- Texts written one after the other are the text of both. -/
theorem Text.bytes_append (s t : Text) : Text.bytes (s ++ t) = s.bytes ++ t.bytes := by
  simp [Text.bytes]

end FileShell
