import FileShell.Command.Basic
import FileShell.Failure
import FileShell.Settings.Config
import FileShell.Text.Order

/-! # The registry of commands

When the shell starts, the built-in commands are registered one after the other
(`Registry.ofConfig`). A command goes into a map, under its name, unless the configuration switches
it off; then only its name is kept. The catalogue is what stands in the map, sorted by name, since a
map has no order of its own. Looking a word up asks the map first, and the names of the commands that
are switched off only if nothing is found there, so such a command fails with a message of its
own. -/

namespace FileShell

/-- Whether a command can be called. -/
def Config.enables (c : Config) (command : Command) : Bool := !c.isDisabled command.name

/-- **The registry**: the commands that can be called, and the names of the others. -/
structure Registry where
  /-- The map from names to commands. No name stands in it twice. -/
  specs : List (Text × Command)
  /-- The names of the commands that are switched off. -/
  disabled : List Text
deriving DecidableEq, Repr

namespace Registry

/-- The registry before anything is registered. -/
def empty : Registry := ⟨[], []⟩

/-- A command put under its name, in the place of what stood there. -/
def insert (r : Registry) (command : Command) : Registry :=
  { r with specs := (command.name, command) :: r.specs.filter (·.1 ≠ command.name) }

/-- **One command registered.** -/
def register (c : Config) (r : Registry) (command : Command) : Registry :=
  if c.enables command then r.insert command
  else { r with disabled := r.disabled ++ [command.name] }

/-- **The registry of a configuration**: all built-in commands registered in order. -/
def ofConfig (c : Config) : Registry := Command.builtIn.foldl (register c) empty

/-- **The catalogue**: the commands in the map, sorted by name. -/
def catalogue (r : Registry) : List Command := Text.sortBy Command.name (r.specs.map Prod.snd)

/-- **A word looked up**, in the map and then among the names that are switched off. -/
def lookUp (r : Registry) (word : Text) : Except ArgumentError Command :=
  match r.specs.lookup word with
  | some command => .ok command
  | none =>
    if r.disabled.contains word then .error (.disabledCommand word)
    else .error (.unknownCommand word)

end Registry

namespace Config

/-- **The commands that can be called**, in the order of their names. -/
def catalogue (c : Config) : List Command := (Registry.ofConfig c).catalogue

/-- **The command of a name**, provided that it can be called. -/
def lookUp (c : Config) (word : Text) : Except ArgumentError Command :=
  (Registry.ofConfig c).lookUp word

end Config

end FileShell
