import FileShell.Text.Basic

/-! # Strings of TOML

There are four ways to write a string: between double quotes, with escapes, or between single
quotes, without any; and each of the two on one line or, with the quote three times, on several.
Each reader below starts after the opening quotes and gives the text together with what follows the
closing ones. -/

namespace FileShell.Toml

/-- A character that a string may hold as it stands: a tab, or anything that is no control
character. -/
def isPlain (c : Char) : Bool := c = '\t' || (0x20 ≤ c.toNat && c.toNat ≠ 0x7F)

/-- A space or a tab. -/
def isSpace (c : Char) : Bool := c = ' ' || c = '\t'

/-- A text without the spaces and tabs at its start. -/
def skipSpace (t : Text) : Text := t.dropWhile isSpace

/-- What follows a newline, if the text begins with one. -/
def newline? : Text → Option Text
  | '\n' :: rest => some rest
  | '\r' :: '\n' :: rest => some rest
  | _ => none

/-- The text without a newline at its start. -/
def dropNewline (t : Text) : Text := (newline? t).getD t

/-! ## Escapes -/

/-- The value of a hexadecimal digit. -/
def hexDigit? (c : Char) : Option Nat :=
  if '0' ≤ c ∧ c ≤ '9' then some (c.toNat - '0'.toNat)
  else if 'a' ≤ c ∧ c ≤ 'f' then some (c.toNat - 'a'.toNat + 10)
  else if 'A' ≤ c ∧ c ≤ 'F' then some (c.toNat - 'A'.toNat + 10)
  else none

/-- The character whose code is written in hexadecimal digits. -/
def scalar? (digits : List Char) : Option Char := do
  let values ← digits.mapM hexDigit?
  let code := values.foldl (fun n d => 16 * n + d) 0
  if code.isValidChar then some (Char.ofNat code) else none

/-- The character that stands behind a backslash in its own right. -/
def escape? : Char → Option Char
  | 'b' => some '\x08'
  | 't' => some '\t'
  | 'n' => some '\n'
  | 'f' => some '\x0C'
  | 'r' => some '\r'
  | '"' => some '"'
  | '\\' => some '\\'
  | _ => none

/-- One character put before a text that was read. -/
def before (c : Char) : Option (Text × Text) → Option (Text × Text) :=
  Option.map fun read => (c :: read.1, read.2)

/-! ## On one line -/

/-- **A string between double quotes.** -/
def basicString : Text → Option (Text × Text)
  | [] => none
  | '"' :: rest => some ([], rest)
  | '\\' :: 'u' :: a :: b :: c :: d :: rest => do
    before (← scalar? [a, b, c, d]) (basicString rest)
  | '\\' :: 'U' :: a :: b :: c :: d :: e :: f :: g :: h :: rest => do
    before (← scalar? [a, b, c, d, e, f, g, h]) (basicString rest)
  | '\\' :: c :: rest => do before (← escape? c) (basicString rest)
  | c :: rest => if isPlain c then before c (basicString rest) else none

/-- **A string between single quotes.** -/
def literalString : Text → Option (Text × Text)
  | [] => none
  | '\'' :: rest => some ([], rest)
  | c :: rest => if isPlain c then before c (literalString rest) else none

/-! ## On several lines -/

/-- Whether a backslash before the text joins two lines: nothing but spaces stand between it and the
newline. -/
def joinsLines (t : Text) : Bool := (newline? (skipSpace t)).isSome

/-- What stands after three quotes in a row: up to two of them still belong to the text. -/
def closing (quote : Char) (rest : Text) : Text × Text :=
  let more := (rest.take 2).takeWhile (· = quote)
  (more, rest.drop more.length)

/-- **A string between three double quotes**; `joining` holds after a backslash at the end of a
line, up to the next character that is neither a space nor a newline. -/
def basicLines (joining : Bool) : Text → Option (Text × Text)
  | [] => none
  | '"' :: '"' :: '"' :: rest => some (closing '"' rest)
  | '\n' :: rest => if joining then basicLines true rest else before '\n' (basicLines false rest)
  | '\r' :: '\n' :: rest =>
    if joining then basicLines true rest else before '\n' (basicLines false rest)
  | '\\' :: 'u' :: a :: b :: c :: d :: rest => do
    before (← scalar? [a, b, c, d]) (basicLines false rest)
  | '\\' :: 'U' :: a :: b :: c :: d :: e :: f :: g :: h :: rest => do
    before (← scalar? [a, b, c, d, e, f, g, h]) (basicLines false rest)
  | '\\' :: c :: rest =>
    if joinsLines (c :: rest) then basicLines true rest
    else do before (← escape? c) (basicLines false rest)
  | c :: rest =>
    if joining && isSpace c then basicLines true rest
    else if isPlain c then before c (basicLines false rest)
    else none

/-- **A string between three single quotes.** -/
def literalLines : Text → Option (Text × Text)
  | [] => none
  | '\'' :: '\'' :: '\'' :: rest => some (closing '\'' rest)
  | '\n' :: rest => before '\n' (literalLines rest)
  | '\r' :: '\n' :: rest => before '\n' (literalLines rest)
  | c :: rest => if isPlain c then before c (literalLines rest) else none

/-- **A string in any of the four ways.** A newline right after three opening quotes is left out. -/
def anyString : Text → Option (Text × Text)
  | '"' :: '"' :: '"' :: rest => basicLines false (dropNewline rest)
  | '"' :: rest => basicString rest
  | '\'' :: '\'' :: '\'' :: rest => literalLines (dropNewline rest)
  | '\'' :: rest => literalString rest
  | _ => none

end FileShell.Toml
