import FileShell.Journal
import FileShell.Volume.Operation

/-! # Volumes

A volume is a tree together with what may interfere with its operations: any of them may be refused
on any path, and a directory's listing may be given in advance instead of being read. The commands
see nothing of a tree but through these operations, so what is shown of them for every volume holds
however the files behave. A refused operation changes nothing; a refused look finds nothing.

One file of a volume may be open for the log. Records are added at its end as they are made
(`Volume.logged`), whatever else happens to its content; once the file has been removed it is out of
reach for good, even if another one takes its place. -/

namespace FileShell

/-- The operations that can be refused. -/
inductive Operation
  | stat
  | list
  | copyFile
  | removeFile
  | removeDirectory
  | removeAll
  | createDirectory
  | readLines
  | readText
  | write
deriving DecidableEq, Repr

/-- **What interferes with operations on files.** -/
structure Interference where
  /-- The reason for which an operation on a path is refused, if it is. -/
  refusal : Operation → Path → Option Text
  /-- The names that a directory's listing shows, if they are not to be read from the tree. -/
  listing : Path → Option (List Text)

/-- No interference at all. -/
def Interference.none : Interference := ⟨fun _ _ => Option.none, fun _ => Option.none⟩

/-- **A file that is open for the log.** -/
structure LogFile where
  /-- Where it is. -/
  location : Location
  /-- The records that are written to it. -/
  filter : LogFilter
deriving DecidableEq, Repr

/-- **A tree and what interferes with the operations on it.** -/
structure Volume where
  /-- The entries. -/
  tree : Tree
  /-- What interferes. -/
  interference : Interference
  /-- The file that is open for the log, if one is. -/
  log : Option LogFile := none

namespace Volume

/-- A volume with nothing that interferes, and without a log. -/
def ofTree (t : Tree) : Volume := { tree := t, interference := .none }

/-! ## The log -/

/-- **The volume with a changed tree.** A file that is open for the log is given up if the change
has removed it. -/
def withTree (v : Volume) (tree : Tree) : Volume :=
  { v with tree, log := v.log.filter fun log => (tree.get? log.location).any Entry.isFile }

/-- **The volume after a record was made**: it stands at the end of the log, if the log is open and
takes it. -/
def logged (v : Volume) (r : Record) : Volume :=
  match v.log with
  | none => v
  | some log =>
    if log.filter.covers r.level then
      { v with tree := v.tree.extend log.location (Text.bytes (r.line ++ ['\n'])) }
    else v

@[simp] theorem tree_withTree (v : Volume) (tree : Tree) : (v.withTree tree).tree = tree := rfl

@[simp] theorem interference_withTree (v : Volume) (tree : Tree) :
    (v.withTree tree).interference = v.interference := rfl

/-- A record changes nothing on a volume without a log. -/
theorem logged_of_log_eq_none {v : Volume} (h : v.log = none) (r : Record) : v.logged r = v := by
  simp [logged, h]

/-! ## Refusals and failures -/

/-- What an operation gives if it is not refused. -/
def unlessRefused (v : Volume) (o : Operation) (p : Path) {α : Type} (result : Except FileError α) :
    Except FileError α :=
  match v.interference.refusal o p with
  | some reason => .error (.refused reason)
  | none => result

/-- The outcome of a change, as a volume: a failed change leaves it as it was. -/
def afterChange (v : Volume) : Except FileError Tree → Except FileError Unit × Volume
  | .ok tree => (.ok (), v.withTree tree)
  | .error e => (.error e, v)

/-- The outcome of a change that may have changed something even if it fails. -/
def afterAttempt (v : Volume) (o : Operation) (p : Path) (outcome : Except FileError Unit × Tree) :
    Except FileError Unit × Volume :=
  match v.interference.refusal o p with
  | some reason => (.error (.refused reason), v)
  | none => (outcome.1, v.withTree outcome.2)

@[simp] theorem afterChange_ok (v : Volume) (tree : Tree) :
    v.afterChange (.ok tree) = (.ok (), v.withTree tree) := rfl

@[simp] theorem afterChange_error (v : Volume) (e : FileError) :
    v.afterChange (.error e) = (.error e, v) := rfl

/-! ## Looking -/

/-- What a path leads to. -/
def stat (v : Volume) (p : Path) : Presence :=
  match v.interference.refusal .stat p with
  | some _ => .missing
  | none => v.tree.stat p

/-- The names in a directory. -/
def names (v : Volume) (p : Path) : Except FileError (List Text) :=
  v.unlessRefused .list p <|
    match v.interference.listing p with
    | some names => .ok names
    | none => v.tree.names p

/-- The text of a file. -/
def readText (v : Volume) (p : Path) : Except FileError Text :=
  v.unlessRefused .readText p (v.tree.readText p)

/-- The lines of a file. -/
def readLines (v : Volume) (p : Path) : Except FileError (List Text) :=
  v.unlessRefused .readLines p (Text.lines <$> v.tree.readText p)

/-! ## Changing -/

/-- A text written to a file. -/
def write (v : Volume) (p : Path) (text : Text) (mode : WriteMode) :
    Except FileError Unit × Volume :=
  v.afterChange (v.unlessRefused .write p (v.tree.write p text mode))

/-- A file copied; a refusal goes by the source. -/
def copyFile (v : Volume) (source target : Path) : Except FileError Unit × Volume :=
  v.afterChange (v.unlessRefused .copyFile source (v.tree.copyFile source target))

/-- A file or a link removed. -/
def removeFile (v : Volume) (p : Path) : Except FileError Unit × Volume :=
  v.afterChange (v.unlessRefused .removeFile p (v.tree.removeFile p))

/-- An empty directory removed. -/
def removeDirectory (v : Volume) (p : Path) : Except FileError Unit × Volume :=
  v.afterChange (v.unlessRefused .removeDirectory p (v.tree.removeDirectory p))

/-- A directory removed with all that lies below it. -/
def removeAll (v : Volume) (p : Path) : Except FileError Unit × Volume :=
  v.afterAttempt .removeAll p (v.tree.removeAll p)

/-- A directory made together with the missing ones above it. -/
def createDirectory (v : Volume) (p : Path) : Except FileError Unit × Volume :=
  v.afterAttempt .createDirectory p (v.tree.createDirectory p)

end Volume

end FileShell
