import FileShell.Settings.Config

/-! # Overlays

A user's settings are laid over a configuration (`Config.overlay`): single values that are given
take the place of the old ones, and lists are extended, shortened or replaced. -/

namespace FileShell

/-- **A change to a list.** -/
structure ListChange where
  /-- Whether the new items replace the old ones altogether. -/
  replace : Bool
  /-- The new items. -/
  add : List Text
  /-- The items taken away, unless all are replaced. -/
  remove : List Text
deriving DecidableEq, Repr

namespace ListChange

/-- No change at all. -/
def none : ListChange := ⟨false, [], []⟩

/-- A list with an item at its end, unless it has that item already. -/
def addNew (items : List Text) (item : Text) : List Text :=
  if items.contains item then items else items ++ [item]

/-- **A list after a change**: what is to be removed goes first, then new items are added at the
end, those excepted that are there already. -/
def apply (c : ListChange) (items : List Text) : List Text :=
  if c.replace then c.add
  else c.add.foldl addNew (items.filter fun item => !c.remove.contains item)

end ListChange

/-- **A user's settings**: what is not given stays as it is. -/
structure Overlay where
  pageSize : Option Nat
  stopWord : Option Text
  quoteAwareBars : Option Bool
  logLevel : Option Text
  disabled : ListChange
  matchDirectories : ListChange
deriving DecidableEq, Repr

namespace Config

/-- **A configuration with a user's settings laid over it.** A page of no lines becomes one of one
line, since the pager would never advance by it. -/
def overlay (c : Config) (o : Overlay) : Config where
  settings :=
    { pageSize := (o.pageSize.map (max · 1)).getD c.settings.pageSize
      stopWord := o.stopWord.getD c.settings.stopWord
      quoteAwareBars := o.quoteAwareBars.getD c.settings.quoteAwareBars
      logLevel := o.logLevel.getD c.settings.logLevel }
  disabled := o.disabled.apply c.disabled
  matchDirectories := o.matchDirectories.apply c.matchDirectories

end Config

end FileShell
