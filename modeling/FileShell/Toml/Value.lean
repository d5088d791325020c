import FileShell.Text.Basic

/-! # TOML values and tables

A document is a table of keys and values. How a table came to be decides what may still be added to
it (`Origin`): a header opens a table once, dotted keys add only to tables that dotted keys have
made, and an inline table is closed. The two ways to add, `insertAt` for a key and
`openTable`/`openElement` for a header, refuse everything else. -/

namespace FileShell.Toml

/-- **How a table came to be.** -/
inductive Origin
  /-- Its own header, or being the root. -/
  | header
  /-- The header of a table inside it. -/
  | implied
  /-- Dotted keys. -/
  | dotted
  /-- Braces. -/
  | inline
deriving DecidableEq, Repr

/-- **A value.** Nothing here asks for a number with a fraction, a date or a time, so that these are
told apart by their kind alone. -/
inductive Value
  | text (text : Text)
  | integer (value : Int)
  | boolean (value : Bool)
  /-- A number with a fraction or an exponent, or one that is not finite. -/
  | fractional
  /-- A date, a time or both. -/
  | moment
  | array (items : List Value)
  | table (origin : Origin) (entries : List (Text × Value))
  | tables (elements : List (List (Text × Value)))

/-- The keys of a table with their values. -/
abbrev Entries := List (Text × Value)

namespace Entries

/-- **The value of a key.** -/
def get? (es : Entries) (key : Text) : Option Value := es.lookup key

/-- A key's value replaced by another one. -/
def replace (es : Entries) (key : Text) (v : Value) : Entries :=
  es.map fun entry => if entry.1 = key then (key, v) else entry

/-- A new key with its value, or the value of a key that is there replaced. -/
def put (es : Entries) (key : Text) (v : Value) : Entries :=
  if (es.get? key).isSome then es.replace key v else es ++ [(key, v)]

/-- **A key and its value inserted below dotted keys.** The tables on the way are made if they are
missing; one that is there may only be passed if it was implied or dotted, and the last one must be
dotted. A list of tables may be passed as well, but not be the last: there its last table counts. -/
def insertAt (key : Text) (v : Value) : List Text → Entries → Option Entries
  | [], es => if (es.get? key).isSome then none else some (es ++ [(key, v)])
  | step :: path, es =>
    match es.get? step with
    | none => do
      let made ← insertAt key v path []
      return es.put step (.table .dotted made)
    | some (.table .dotted inner) => do
      let changed ← insertAt key v path inner
      return es.put step (.table .dotted changed)
    | some (.table .implied inner) =>
      if path.isEmpty then none
      else do
        let changed ← insertAt key v path inner
        return es.put step (.table .implied changed)
    | some (.tables elements) =>
      if path.isEmpty then none
      else do
        let changed ← insertAt key v path (elements.getLast?.getD [])
        return es.put step (.tables (elements.dropLast ++ [changed]))
    | some _ => none

/-- **A change carried out in the table that a path of headers leads to.** Missing tables on the way
are implied; in a list of tables the last one counts. -/
def changeAt (change : Entries → Option Entries) : List Text → Entries → Option Entries
  | [], es => change es
  | step :: path, es =>
    match es.get? step with
    | none => do
      let made ← changeAt change path []
      return es.put step (.table .implied made)
    | some (.table .inline _) => none
    | some (.table origin inner) => do
      let changed ← changeAt change path inner
      return es.put step (.table origin changed)
    | some (.tables elements) => do
      let changed ← changeAt change path (elements.getLast?.getD [])
      return es.put step (.tables (elements.dropLast ++ [changed]))
    | some _ => none

/-- A table opened by its header: it must be new, or implied so far. -/
def openTable (key : Text) (es : Entries) : Option Entries :=
  match es.get? key with
  | none => some (es.put key (.table .header []))
  | some (.table .implied inner) => some (es.put key (.table .header inner))
  | some _ => none

/-- One more table of a list of tables. -/
def openElement (key : Text) (es : Entries) : Option Entries :=
  match es.get? key with
  | none => some (es.put key (.tables [[]]))
  | some (.tables elements) => some (es.put key (.tables (elements ++ [[]])))
  | some _ => none

end Entries

/-- **A document being read**: its root, and the path of the last header. -/
structure Document where
  root : Entries
  current : List Text

namespace Document

/-- A document with nothing in it. -/
def empty : Document := ⟨[], []⟩

/-- The document after a key with its value. -/
def insert (d : Document) (path : List Text) (v : Value) : Option Document := do
  let key ← path.getLast?
  let root ← d.root.changeAt (Entries.insertAt key v path.dropLast) d.current
  return { d with root }

/-- The document after a header. -/
def openWith (d : Document) (change : Text → Entries → Option Entries) (path : List Text) :
    Option Document := do
  let key ← path.getLast?
  let root ← d.root.changeAt (change key) path.dropLast
  return ⟨root, path⟩

end Document

end FileShell.Toml
