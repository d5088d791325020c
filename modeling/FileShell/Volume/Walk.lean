import FileShell.Path.Steps
import FileShell.Volume.Tree

/-! # Finding the location of a path

A path is followed from the root step by step (`Tree.walk`). Every name must be looked up in a
directory, two dots lead to the directory above, and a link on the way is followed by going on with
the steps of its target. At most forty links are followed; the recursion runs over the links still
allowed and, below that, over the steps.

* **`t.locate p`** — where `p` leads when links are followed to the end; something may or may not
  stand there.
* **`t.locateForWriting p`** — the same for a file that is made if it is missing: no file can be
  made under a name with a slash behind it.
* **`t.place p`** — the place that the end of `p` names, where an entry is removed or made: a link
  at the end is not followed. It comes with the way in which `p` ends, since some endings name no
  place for that. -/

namespace FileShell

/-- **Why an operation on files fails.** -/
inductive FileError
  /-- Nothing stands there, or a directory on the way is missing. -/
  | noEntry
  /-- Something stands there already. -/
  | alreadyExists
  /-- A directory is needed there, or on the way. -/
  | notDirectory
  /-- A directory stands where a file is needed. -/
  | isDirectory
  /-- The path ends in a way that makes no sense here. -/
  | invalidPath
  /-- The directory has entries. -/
  | notEmpty
  /-- A name or a path has too many bytes. -/
  | nameTooLong
  /-- More links than are followed. -/
  | tooManyLinks
  /-- The bytes are not UTF-8. -/
  | invalidText
  /-- The operation was refused, for this reason. -/
  | refused (reason : Text)
deriving DecidableEq, Repr

/-- The wording of a failed operation. -/
def FileError.message : FileError → Text
  | .noEntry => "No such file or directory (os error 2)".toList
  | .alreadyExists => "File exists (os error 17)".toList
  | .notDirectory => "Not a directory (os error 20)".toList
  | .isDirectory => "Is a directory (os error 21)".toList
  | .invalidPath => "Invalid argument (os error 22)".toList
  | .notEmpty => "Directory not empty (os error 39)".toList
  | .nameTooLong => "File name too long (os error 36)".toList
  | .tooManyLinks => "Too many levels of symbolic links (os error 40)".toList
  | .invalidText => "stream did not contain valid UTF-8".toList
  | .refused reason => reason

/-- The most bytes that a name may have. -/
def maxNameBytes : Nat := 255

/-- The most bytes that a path may have. -/
def maxPathBytes : Nat := 4095

/-- The most links that are followed on the way to one location. -/
def maxLinks : Nat := 40

/-- The number of bytes in a text. -/
def Text.byteCount : Text → Nat
  | [] => 0
  | c :: rest => c.utf8Size + byteCount rest

/-- **The steps of a path that is not too long.** -/
def Path.checkedSteps (p : Path) : Except FileError (List Step) :=
  if maxPathBytes < p.text.byteCount then .error .nameTooLong else .ok p.steps

/-- **What a location is looked for.** -/
inductive Purpose
  /-- To use what stands there. -/
  | visit
  /-- To write a file there, which is made if it is missing. -/
  | write
deriving DecidableEq, Repr

/-- **How a path ends**, as far as it matters for what may be done at its end. -/
inductive Ending
  /-- In a name. -/
  | name
  /-- In a name and a slash. -/
  | slash
  /-- In a dot. -/
  | here
  /-- In two dots. -/
  | up
  /-- In the root. -/
  | root
deriving DecidableEq, Repr

namespace Tree

/-- A location, provided that a directory stands there. -/
def enter (t : Tree) (l : Location) : Except FileError Location :=
  match t.get? l with
  | none => .error .noEntry
  | some .directory => .ok l
  | some _ => .error .notDirectory

/-- The location of a name in a directory, provided that the name is not too long. -/
def nameIn (directory : Location) (name : Text) : Except FileError Location :=
  if maxNameBytes < name.byteCount then .error .nameTooLong else .ok (directory ++ [name])

/-- The location of a name in the directory at `l`. -/
def step (t : Tree) (l : Location) (name : Text) : Except FileError Location := do
  nameIn (← t.enter l) name

/-- **A walk along steps**, with `jump` for the steps that follow once a link is met. Nothing is
written under a name that only a slash follows, whatever stands there. -/
def walkWith (t : Tree) (purpose : Purpose)
    (jump : Location → List Step → Except FileError Location) :
    Location → List Step → Except FileError Location
  | l, [] => .ok l
  | _, .root :: rest => walkWith t purpose jump [] rest
  | l, .here :: rest | l, .slash :: rest => do
    let directory ← t.enter l
    walkWith t purpose jump directory rest
  | l, .up :: rest => do
    let directory ← t.enter l
    walkWith t purpose jump directory.dropLast rest
  | l, .name n :: rest => do
    let directory ← t.enter l
    if purpose = .write ∧ rest = [.slash] then throw .isDirectory
    let next ← nameIn directory n
    match t.get? next with
    | some (.link target) => jump l ((Path.mk target).steps ++ rest)
    | _ => walkWith t purpose jump next rest

/-- **A walk that follows fewer links than `links`.** -/
def walk (t : Tree) (purpose : Purpose) :
    (links : Nat) → Location → List Step → Except FileError Location
  | 0 => fun _ _ => .error .tooManyLinks
  | links + 1 => walkWith t purpose (walk t purpose links)

/-- Where steps lead from the root, every link followed. -/
def locateSteps (t : Tree) (steps : List Step) : Except FileError Location :=
  t.walk .visit (maxLinks + 1) [] steps

/-- **Where a path leads**, every link followed. -/
def locate (t : Tree) (p : Path) : Except FileError Location := do
  t.locateSteps (← p.checkedSteps)

/-- **Where a file is written**, every link followed. -/
def locateForWriting (t : Tree) (p : Path) : Except FileError Location := do
  t.walk .write (maxLinks + 1) [] (← p.checkedSteps)

/-- The place that the end of some steps names, and how they end. -/
def placeSteps (t : Tree) (steps : List Step) : Except FileError (Location × Ending) :=
  match steps.reverse with
  | .name n :: above => do return (← t.step (← t.locateSteps above.reverse) n, .name)
  | .slash :: .name n :: above => do return (← t.step (← t.locateSteps above.reverse) n, .slash)
  | .here :: above => do return (← t.enter (← t.locateSteps above.reverse), .here)
  | .up :: above => do return ((← t.enter (← t.locateSteps above.reverse)).dropLast, .up)
  | _ => .ok ([], .root)

/-- **The place that the end of a path names**, a link there not followed, and how the path
ends. -/
def place (t : Tree) (p : Path) : Except FileError (Location × Ending) := do
  t.placeSteps (← p.checkedSteps)

/-- **The entry that a path names**: a link at the end is meant itself, unless more than a name
stands there. -/
def locateEntry (t : Tree) (p : Path) : Except FileError Location := do
  match ← t.place p with
  | (l, .name) => return l
  | _ => t.locate p

/-- The path of the location where a path leads, if there is one. -/
def canonical? (t : Tree) (p : Path) : Option Path := (t.locate p).toOption.map Path.ofNames

end Tree

end FileShell
