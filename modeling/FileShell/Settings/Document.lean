import FileShell.Settings.Overlay
import FileShell.Toml.Reader
import FileShell.Toml.Writer

/-! # The configuration as a document

A user's settings are written in TOML, in the tables `settings`, `commands` and `wildcard`. Keys
that mean nothing are passed over; a known key with a value of the wrong type makes the whole
document useless (`Overlay.ofText?`). A configuration is written in the same form (`Config.text?`)
and can be read back from it (`Config.ofText?`). A table may also be given as an array of its values
in the order in which they are written here, or as a date or a time, which is a table without any
of their keys. -/

namespace FileShell

namespace Toml

/-! ## Values of a type -/

/-- A value as a text. -/
def Value.text? : Value → Option Text
  | .text t => some t
  | _ => none

/-- A value as a truth value. -/
def Value.boolean? : Value → Option Bool
  | .boolean b => some b
  | _ => none

/-- A value as a natural number. -/
def Value.natural? : Value → Option Nat
  | .integer i => if 0 ≤ i then some i.toNat else none
  | _ => none

/-- A value as a list of texts. -/
def Value.texts? : Value → Option (List Text)
  | .array items => items.mapM Value.text?
  | _ => none

/-- **A table's values in the order of the given keys**, those that are not there left out. An array
stands for a table by its items, and a moment for one with none of the keys. -/
def Value.fields? (keys : List Text) : Value → Option (List (Option Value))
  | .table _ entries => some (keys.map (Entries.get? entries))
  | .moment => some (keys.map fun _ => none)
  | .array items => some ((List.range keys.length).map fun i => items[i]?)
  | .tables elements =>
    some ((List.range keys.length).map fun i => elements[i]?.map (.table .header))
  | _ => none

/-- A value that may be missing, read by its type. -/
def optional {α : Type} (read : Value → Option α) : Option Value → Option (Option α)
  | none => some none
  | some v => (read v).map some

/-- A value that may be missing, read by its type or taken from elsewhere. -/
def orElse {α : Type} (read : Value → Option α) (default : α) (v : Option Value) : Option α :=
  (optional read v).map (·.getD default)

end Toml

open Toml

/-! ## Keys -/

/-- The keys of the table `settings`. -/
def settingsKeys : List Text :=
  ["page_size".toList, "cat_sentinel".toList, "quote_aware_pipes".toList, "log_level".toList]

/-- The keys of the table `commands`. -/
def commandsKeys : List Text :=
  ["replace".toList, "disabled".toList, "remove_disabled".toList]

/-- The keys of the table `wildcard`. -/
def wildcardKeys : List Text :=
  ["replace".toList, "include_directories".toList, "remove_include_directories".toList]

/-! ## Reading overlays -/

/-- The single values of an overlay. An array has to give all of them. -/
def readSettings (v : Option Value) :
    Option (Option Nat × Option Text × Option Bool × Option Text) := do
  let some v := v | return (none, none, none, none)
  let [pageSize, stopWord, quoteAware, logLevel] ← v.fields? settingsKeys | none
  let isTable := match v with | .table _ _ | .moment => true | _ => false
  if !isTable && [pageSize, stopWord, quoteAware, logLevel].any Option.isNone then none
  return (← optional Value.natural? pageSize, ← optional Value.text? stopWord,
    ← optional Value.boolean? quoteAware, ← optional Value.text? logLevel)

/-- A change to a list, from the table that describes it. -/
def readListChange (keys : List Text) (v : Option Value) : Option ListChange := do
  let some v := v | return .none
  let [replace, add, remove] ← v.fields? keys | none
  return ⟨← orElse Value.boolean? false replace, ← orElse Value.texts? [] add,
    ← orElse Value.texts? [] remove⟩

/-- **A user's settings, from a document.** -/
def Overlay.ofText? (t : Text) : Option Overlay := do
  let root ← read? t
  let (pageSize, stopWord, quoteAwareBars, logLevel) ←
    readSettings (root.get? "settings".toList)
  return { pageSize, stopWord, quoteAwareBars, logLevel
           disabled := ← readListChange commandsKeys (root.get? "commands".toList)
           matchDirectories := ← readListChange wildcardKeys (root.get? "wildcard".toList) }

/-! ## Whole configurations -/

/-- The list that a table holds under one key. -/
def readList (key : Text) (v : Option Value) : Option (List Text) := do
  let some v := v | return []
  let [items] ← v.fields? [key] | none
  orElse Value.texts? [] items

/-- **A configuration, from a document.** What is not given has its value by default, and lists are
empty by default. -/
def Config.ofText? (t : Text) : Option Config := do
  let root ← read? t
  let (pageSize, stopWord, quoteAwareBars, logLevel) ←
    readSettings (root.get? "settings".toList)
  let d := Config.default.settings
  return { settings :=
             { pageSize := pageSize.getD d.pageSize
               stopWord := stopWord.getD d.stopWord
               quoteAwareBars := quoteAwareBars.getD d.quoteAwareBars
               logLevel := logLevel.getD d.logLevel }
           disabled := ← readList "disabled".toList (root.get? "commands".toList)
           matchDirectories :=
             ← readList "include_directories".toList (root.get? "wildcard".toList) }

/-- The table of the single values. -/
def Settings.text (s : Settings) : Text :=
  headerLine "settings".toList ++
    keyValueLine "page_size".toList (Text.ofNat s.pageSize) ++
    keyValueLine "cat_sentinel".toList (writeString s.stopWord) ++
    keyValueLine "quote_aware_pipes".toList (writeBoolean s.quoteAwareBars) ++
    keyValueLine "log_level".toList (writeString s.logLevel)

/-- The tables of a configuration, one after another. -/
def Config.text (c : Config) : Text :=
  c.settings.text ++ '\n' :: headerLine "commands".toList ++
    keyValueLine "disabled".toList (writeList c.disabled) ++ '\n' ::
    headerLine "wildcard".toList ++
    keyValueLine "include_directories".toList (writeList c.matchDirectories)

/-- **A configuration as a document**, unless its page is too large for an integer of one. -/
def Config.text? (c : Config) : Option Text :=
  if (c.settings.pageSize : Int) ≤ Int64.maxValue.toInt then some c.text else none

end FileShell
