import FileShell.Text.Basic

/-! # The configuration

What the user can configure: the pager's page, the word that ends typed input, how bars are read,
how much is logged, which commands are switched off, and for which commands wildcards match
directories too. -/

namespace FileShell

/-- **What the wildcards of a command match.** -/
inductive MatchScope
  /-- Anything but directories. -/
  | filesOnly
  /-- Anything. -/
  | everything
deriving DecidableEq, Repr

/-- The settings that are single values. -/
structure Settings where
  /-- The lines of a page in the pager. -/
  pageSize : Nat
  /-- The line that ends typed input. -/
  stopWord : Text
  /-- Whether a bar inside quotes is part of a word. -/
  quoteAwareBars : Bool
  /-- How much is logged. -/
  logLevel : Text
deriving DecidableEq, Repr

/-- **The configuration.** -/
structure Config where
  /-- The single values. -/
  settings : Settings
  /-- The names of the commands that are switched off. -/
  disabled : List Text
  /-- The names of the commands whose wildcards match directories too. -/
  matchDirectories : List Text
deriving DecidableEq, Repr

namespace Config

/-- The configuration of a user who has configured nothing. -/
def default : Config where
  settings := ⟨10, "<stop>".toList, true, "info".toList⟩
  disabled := []
  matchDirectories := ["ls".toList, "cp".toList, "mv".toList]

/-- Whether a command is switched off. -/
def isDisabled (c : Config) (name : Text) : Bool := c.disabled.contains name

/-- What a command's wildcards match. -/
def matchScope (c : Config) (name : Text) : MatchScope :=
  if c.matchDirectories.contains name then .everything else .filesOnly

end Config

end FileShell
