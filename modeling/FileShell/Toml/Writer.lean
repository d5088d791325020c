import FileShell.Text.Basic

/-! # Writing TOML

A string is written in the first of the four ways that fits it without escapes other than for tabs:
between double quotes, between single quotes, between three double quotes, between three single
quotes. Where none fits it is escaped, on several lines if it has more than one. A list stands on
one line if it has at most one item. -/

namespace FileShell.Toml

/-! ## What a text holds -/

/-- Whether a character can only be written as an escape: a control character that is neither a tab
nor a newline. -/
def needsEscape (c : Char) : Bool :=
  (c.toNat < 0x20 || c.toNat = 0x7F) && c ≠ '\t' && c ≠ '\n'

/-- The length of the longest run of a character that begins or goes on after `run` of them. -/
def longestRun (c : Char) (run : Nat) : Text → Nat
  | [] => run
  | d :: rest => if d = c then longestRun c (run + 1) rest else max run (longestRun c 0 rest)

/-- **The four ways to write a string.** -/
inductive StringStyle
  | basic
  | literal
  | basicLines
  | literalLines
deriving DecidableEq, Repr

/-- Whether a way fits a text without escapes other than for tabs. -/
def StringStyle.fits (t : Text) : StringStyle → Bool
  | .basic => !t.any fun c => needsEscape c || c = '\\' || c = '"' || c = '\n'
  | .literal => !t.any fun c => needsEscape c || c = '\'' || c = '\n'
  | .basicLines => !(t.any fun c => needsEscape c || c = '\\') && longestRun '"' 0 t < 3
  | .literalLines => !t.any needsEscape && longestRun '\'' 0 t < 3

/-- **The way in which a text is written.** -/
def StringStyle.ofText (t : Text) : StringStyle :=
  match [StringStyle.basic, .literal, .basicLines, .literalLines].find? (·.fits t) with
  | some style => style
  | none => if t.contains '\n' then .basicLines else .basic

/-! ## Strings -/

/-- A character as an escape. -/
def escaped (c : Char) : Text :=
  if c = '\x08' then "\\b".toList
  else if c = '\t' then "\\t".toList
  else if c = '\n' then "\\n".toList
  else if c = '\x0C' then "\\f".toList
  else if c = '\r' then "\\r".toList
  else if c = '"' then "\\\"".toList
  else if c = '\\' then "\\\\".toList
  else "\\u".toList ++ Text.hexPadded 4 c.toNat

/-- A character between double quotes on one line. -/
def basicChar (c : Char) : Text :=
  if needsEscape c || ['\t', '\n', '"', '\\'].contains c then escaped c else [c]

/-- **A text between three double quotes**, after `run` quotes in a row: every third one is
escaped. -/
def basicLinesText (run : Nat) : Text → Text
  | [] => []
  | c :: rest =>
    if c = '"' then
      if run = 2 then escaped c ++ basicLinesText 0 rest else c :: basicLinesText (run + 1) rest
    else if c = '\n' then c :: basicLinesText 0 rest
    else basicChar c ++ basicLinesText 0 rest

/-- The newline after three opening quotes, for a text of more than one line. -/
def leadingNewline (t : Text) : Text := if t.contains '\n' then ['\n'] else []

/-- **A text as a string.** -/
def writeString (t : Text) : Text :=
  match StringStyle.ofText t with
  | .basic => '"' :: t.flatMap basicChar ++ ['"']
  | .literal => '\'' :: t ++ ['\'']
  | .basicLines => "\"\"\"".toList ++ leadingNewline t ++ basicLinesText 0 t ++ "\"\"\"".toList
  | .literalLines => "'''".toList ++ leadingNewline t ++ t ++ "'''".toList

/-! ## Other values -/

/-- A truth value. -/
def writeBoolean (b : Bool) : Text := if b then "true".toList else "false".toList

/-- One item of a list, on a line of its own. -/
def itemLine (t : Text) : Text := "    ".toList ++ writeString t ++ ",\n".toList

/-- **A list of strings.** -/
def writeList : List Text → Text
  | [] => "[]".toList
  | [t] => '[' :: writeString t ++ [']']
  | ts => "[\n".toList ++ ts.flatMap itemLine ++ [']']

/-- A key with its value, on a line of its own. -/
def keyValueLine (key value : Text) : Text := key ++ " = ".toList ++ value ++ ['\n']

/-- The header of a table, on a line of its own. -/
def headerLine (key : Text) : Text := '[' :: key ++ "]\n".toList

end FileShell.Toml
