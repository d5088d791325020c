import FileShell.Toml.Scalars

/-! # Reading TOML

A document is read line by line: a header, a key with its value, a comment or nothing. Values may
nest, and arrays may run over several lines. Every reader gives what it has read together with the
rest of the text; those that recurse carry a bound on their rounds, and one more than the text has
characters is always enough, since every round takes at least one. How deep values may nest, and how
many keys may be joined by dots, has a limit of its own (`maxDepth`). -/

namespace FileShell.Toml

/-! ## Between values -/

/-- What follows the end of a line: spaces, perhaps a comment, and then a newline or the end of the
text. -/
def lineEnd (inComment : Bool) : Text → Option Text
  | [] => some []
  | '\n' :: rest => some rest
  | '\r' :: '\n' :: rest => some rest
  | c :: rest =>
    if inComment then if isPlain c then lineEnd true rest else none
    else if isSpace c then lineEnd false rest
    else if c = '#' then lineEnd true rest
    else none

/-- The text after spaces, newlines and comments. -/
def skipGaps (inComment : Bool) : Text → Text
  | [] => []
  | '\n' :: rest => skipGaps false rest
  | '\r' :: '\n' :: rest => skipGaps false rest
  | c :: rest =>
    if inComment then if isPlain c then skipGaps true rest else c :: rest
    else if isSpace c then skipGaps false rest
    else if c = '#' then skipGaps true rest
    else c :: rest

/-- **How deep** arrays and inline tables may stand inside each other, and how many keys may be
joined by dots. -/
def maxDepth : Nat := 79

/-! ## Keys -/

/-- A character of a key without quotes. -/
def isBare (c : Char) : Bool := c.isAlphanum || c = '_' || c = '-'

/-- **One key**, with quotes or without. -/
def simpleKey : Text → Option (Text × Text)
  | '"' :: rest => basicString rest
  | '\'' :: rest => literalString rest
  | t =>
    let key := t.takeWhile isBare
    if key.isEmpty then none else some (key, t.dropWhile isBare)

/-- Keys with dots between them, and the text after the spaces that follow them. -/
def dottedKeys : (bound : Nat) → Text → Option (List Text × Text)
  | 0, _ => none
  | n + 1, t => do
    let (key, rest) ← simpleKey (skipSpace t)
    match skipSpace rest with
    | '.' :: more => do
      let (keys, rest) ← dottedKeys n more
      return (key :: keys, rest)
    | rest => return ([key], rest)

/-- **The keys that lead to a value or a table**, if they are not too many. -/
def keyPath (bound : Nat) (t : Text) : Option (List Text × Text) := do
  let (keys, rest) ← dottedKeys bound t
  if keys.length ≤ maxDepth then some (keys, rest) else none

/-! ## Values -/

/-- An inline table, from its keys and values. -/
def inlineTable (pairs : List (List Text × Value)) : Option Value := do
  let d ← pairs.foldlM (fun d pair => d.insert pair.1 pair.2) Document.empty
  return .table .inline d.root

mutual

/-- **A value**, with room for so many more arrays and inline tables inside each other. -/
def value : (bound : Nat) → (room : Nat) → Text → Option (Value × Text)
  | 0, _, _ => none
  | _ + 1, 0, '[' :: _ => none
  | n + 1, room + 1, '[' :: rest => do
    let (items, rest) ← arrayItems n room (skipGaps false rest)
    return (.array items, rest)
  | _ + 1, 0, '\x7b' :: _ => none
  | n + 1, room + 1, '\x7b' :: rest =>
    match skipSpace rest with
    | '\x7d' :: rest => some (.table .inline [], rest)
    | rest => do
      let (pairs, rest) ← inlinePairs n room rest
      return (← inlineTable pairs, rest)
  | _ + 1, _, t => scalar t

/-- The items of an array, up to its end. -/
def arrayItems : (bound : Nat) → (room : Nat) → Text → Option (List Value × Text)
  | 0, _, _ => none
  | _ + 1, _, ']' :: rest => some ([], rest)
  | n + 1, room, t => do
    let (item, rest) ← value n room t
    match skipGaps false rest with
    | ',' :: rest => do
      let (items, rest) ← arrayItems n room (skipGaps false rest)
      return (item :: items, rest)
    | ']' :: rest => return ([item], rest)
    | _ => none

/-- The keys and values of an inline table, up to its end. -/
def inlinePairs : (bound : Nat) → (room : Nat) → Text → Option (List (List Text × Value) × Text)
  | 0, _, _ => none
  | n + 1, room, t => do
    let (path, rest) ← keyPath n t
    let (v, rest) ← value n room (skipSpace (← expect '=' rest))
    match skipSpace rest with
    | ',' :: rest => do
      let (pairs, rest) ← inlinePairs n room rest
      return ((path, v) :: pairs, rest)
    | '\x7d' :: rest => return ([(path, v)], rest)
    | _ => none

end

/-! ## Documents -/

/-- A key with its value, as one line of a document. -/
def keyLine (bound : Nat) (d : Document) (t : Text) : Option (Document × Text) := do
  let (path, rest) ← keyPath bound t
  let (v, rest) ← value bound maxDepth (skipSpace (← expect '=' rest))
  return (← d.insert path v, rest)

/-- **One line of a document**, and what follows it up to the end of the line. -/
def documentLine (bound : Nat) (d : Document) : Text → Option (Document × Text)
  | '[' :: '[' :: rest => do
    let (path, rest) ← keyPath bound rest
    return (← d.openWith Entries.openElement path, ← expect ']' (← expect ']' rest))
  | '[' :: rest => do
    let (path, rest) ← keyPath bound rest
    return (← d.openWith Entries.openTable path, ← expect ']' rest)
  | t => if t.isEmpty ∨ t.head? = some '#' ∨ (newline? t).isSome then some (d, t)
    else keyLine bound d t

/-- The lines of a document. -/
def documentLines : (bound : Nat) → Document → Text → Option Document
  | 0, _, _ => none
  | n + 1, d, t => do
    let (d, rest) ← documentLine (n + 1) d (skipSpace t)
    let rest ← lineEnd false rest
    if rest.isEmpty then return d else documentLines n d rest

/-- The mark that may stand before a document. -/
def byteOrderMark : Char := '\uFEFF'

/-- **A document**, if the text is one. -/
def read? (t : Text) : Option Entries :=
  let body := if t.head? = some byteOrderMark then t.tail else t
  (documentLines (body.length + 1) .empty body).map (·.root)

end FileShell.Toml
