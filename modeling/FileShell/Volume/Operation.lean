import FileShell.Volume.Walk

/-! # Operations on a tree

The operations that the commands are made of, on a tree without any interference. Each takes paths
and gives a result or the cause of its failure; a failed one leaves the tree as it was, except that
making directories keeps those made before the failure, and that removing a directory with all its
entries may find at last that the directory itself cannot be removed. Reading, writing, listing and
copying follow links; removing and making entries does not follow a link at the end of the path. -/

namespace FileShell

/-- **What a path leads to**, links followed. -/
inductive Presence
  | file
  | directory
  | missing
deriving DecidableEq, Repr

/-- **What happens to the content a file has** when a text is written to it. -/
inductive WriteMode
  /-- It is dropped. -/
  | truncate
  /-- It is kept, and the text follows it. -/
  | append
deriving DecidableEq, Repr

namespace Tree

/-! ## Looking -/

/-- **What a path leads to.** A path that cannot be followed leads to nothing. -/
def stat (t : Tree) (p : Path) : Presence :=
  match t.locate p with
  | .error _ => .missing
  | .ok l =>
    match t.get? l with
    | some .directory => .directory
    | some (.file _) => .file
    | _ => .missing

/-- **The names in a directory**, in the order of texts. -/
def names (t : Tree) (p : Path) : Except FileError (List Text) := do
  let directory ← t.enter (← t.locate p)
  return t.namesBelow directory

/-- The bytes at a location. -/
def bytesAt (t : Tree) (l : Location) : Except FileError ByteArray :=
  match t.get? l with
  | some (.file content) => .ok content
  | some .directory => .error .isDirectory
  | _ => .error .noEntry

/-- **The text of a file.** -/
def readText (t : Tree) (p : Path) : Except FileError Text := do
  let bytes ← t.bytesAt (← t.locate p)
  match textOfBytes? bytes with
  | some text => return text
  | none => throw .invalidText

/-! ## Writing -/

/-- The bytes of a file when it is opened for writing; a missing file has none. -/
def openedBytes (t : Tree) (l : Location) : Except FileError ByteArray :=
  match t.get? l with
  | some (.file content) => .ok content
  | some .directory => .error .isDirectory
  | _ => .ok .empty

/-- **A text written to a file**, which is made if it is missing. -/
def write (t : Tree) (p : Path) (text : Text) (mode : WriteMode) : Except FileError Tree := do
  let l ← t.locateForWriting p
  let old ← t.openedBytes l
  match mode with
  | .truncate => return t.set l (.file text.bytes)
  | .append => return t.set l (.file (old ++ text.bytes))

/-- Bytes added at the end of the file at a location, if there is one. -/
def extend (t : Tree) (l : Location) (bytes : ByteArray) : Tree :=
  match t.get? l with
  | some (.file old) => t.set l (.file (old ++ bytes))
  | _ => t

/-- **A file copied onto another**, which is made if it is missing. The target is emptied before the
source is read, so a file copied onto itself ends up empty. -/
def copyFile (t : Tree) (source target : Path) : Except FileError Tree := do
  let origin ← t.locate source
  let _ ← t.bytesAt origin
  let goal ← t.locateForWriting target
  let _ ← t.openedBytes goal
  let opened := t.set goal (.file .empty)
  let content ← opened.bytesAt origin
  return opened.set goal (.file content)

/-! ## Removing -/

/-- **A file or a link removed.** It must be named without a slash behind it. -/
def removeFile (t : Tree) (p : Path) : Except FileError Tree := do
  let (l, ending) ← t.place p
  match ending with
  | .name | .slash =>
    match t.get? l with
    | none => throw .noEntry
    | some .directory => throw .isDirectory
    | some _ => if ending = .slash then throw .notDirectory else return t.erase l
  | .here | .up | .root => throw .isDirectory

/-- **An empty directory removed.** A path that ends in dots does not name it well enough: the
directory above it, which two dots lead to, is never empty, and with one dot it is not said where
the directory stands. -/
def removeDirectory (t : Tree) (p : Path) : Except FileError Tree := do
  let (l, ending) ← t.place p
  match ending with
  | .here => throw .invalidPath
  | .up => throw .notEmpty
  | .name | .slash | .root =>
    match t.get? l with
    | none => throw .noEntry
    | some .directory =>
      if (t.namesBelow l).isEmpty then return t.erase l else throw .notEmpty
    | some _ => throw .notDirectory

/-- A directory that was emptied, removed by its path. If nothing is found there any more, because
the path leads through what has just been removed, the directory stays, and that is no failure. -/
def removeEmptied (t : Tree) (p : Path) : Except FileError Unit × Tree :=
  match t.removeDirectory p with
  | .ok removed => (.ok (), removed)
  | .error .noEntry => (.ok (), t)
  | .error e => (.error e, t)

/-- **A directory removed with all that lies below it.** A link is removed without what it leads
to. -/
def removeAll (t : Tree) (p : Path) : Except FileError Unit × Tree :=
  match t.locateEntry p with
  | .error e => (.error e, t)
  | .ok l =>
    match t.get? l with
    | none => (.error .noEntry, t)
    | some .directory => (t.emptied l).removeEmptied p
    | some (.file _) => (.error .notDirectory, t)
    | some (.link _) => (.ok (), t.erase l)

/-! ## Making directories -/

/-- One directory made in a directory that exists. -/
def makeDirectory (t : Tree) (steps : List Step) : Except FileError Tree := do
  let (l, _) ← t.placeSteps steps
  match t.get? l with
  | none => return t.set l .directory
  | some _ => throw .alreadyExists

/-- Whether steps lead to a directory. -/
def isDirectoryAt (t : Tree) (steps : List Step) : Bool :=
  match t.locateSteps steps with
  | .error _ => false
  | .ok l => (t.get? l).any Entry.isDirectory

/-- A failure to make a directory, forgiven if the directory is there. -/
def unlessDirectory (t : Tree) (steps : List Step) (e : FileError) : Except FileError Unit × Tree :=
  if t.isDirectoryAt steps then (.ok (), t) else (.error e, t)

/-- A directory made; if the directory above is missing, that is made first, in the given way, and
then a second attempt is made. -/
def makeBelow (t : Tree) (makeAbove : Tree → Except FileError Unit × Tree) (steps : List Step) :
    Except FileError Unit × Tree :=
  match t.makeDirectory steps with
  | .ok made => (.ok (), made)
  | .error .noEntry =>
    match makeAbove t with
    | (.error e, made) => (.error e, made)
    | (.ok _, made) =>
      match made.makeDirectory steps with
      | .ok all => (.ok (), all)
      | .error e => made.unlessDirectory steps e
  | .error e => t.unlessDirectory steps e

/-- The directory of the given parts, last part first, and the missing ones above it. -/
def makeDirectories : List Part → Tree → Except FileError Unit × Tree
  | [], t => (.ok (), t)
  | part :: above, t =>
    t.makeBelow (makeDirectories above) ((part :: above).reverse.map Part.step)

/-- **A directory made together with the missing ones above it.** Directories made before a failure
stay. -/
def createDirectory (t : Tree) (p : Path) : Except FileError Unit × Tree :=
  match p.checkedSteps with
  | .error e => (.error e, t)
  | .ok steps => t.makeBelow (makeDirectories p.parts.dropLast.reverse) steps

/-! ## Trees from lists of entries -/

/-- One more entry, with the missing directories above it; one that cannot be made is left out. -/
def add (t : Tree) (p : Path) (e : Entry) : Tree :=
  let above := (makeDirectories p.parts.dropLast.reverse t).2
  match e with
  | .directory => (above.createDirectory p).2
  | .file content =>
    match above.locateForWriting p with
    | .ok l => above.set l (.file content)
    | .error _ => above
  | .link target =>
    match above.place p with
    | .ok (l, .name) => above.set l (.link target)
    | _ => above

/-- **The tree made by adding entries in order.** -/
def ofEntries (entries : List (Path × Entry)) : Tree :=
  entries.foldl (fun t entry => t.add entry.1 entry.2) empty

end Tree

end FileShell
