import FileShell.Shell.State

/-! # The commands `cd`, `pwd`, `mkdir` and `ls`

In the lines of `ls` one name stands on each line; the name of a directory is followed by a slash.
For a wildcard every match has its line, and the entries of a directory that matched follow it, two
blanks further in. -/

namespace FileShell

/-! ## The working directory and new directories -/

/-- **`cd`.** Without an operand it leads home. -/
def changeDirectory (call : Call) : Shell Text := fun s =>
  match s.session.changeDirectory s.volume (call.paths.head?.getD s.session.home) with
  | .ok session => .ok [] { s with session }
  | .error e => .error (.execution e) s

/-- **`pwd`.** -/
def printDirectory : Shell Text := fun s => .ok s.session.cwd.text s

/-- The record of a directory that was made. -/
def madeText (path : Path) : Text := Command.mkdir.name ++ ": ".toList ++ path.text

/-- The directories made in order; the first one that exists or cannot be made ends the run. -/
def makeEach : List Path → Shell Unit
  | [] => return ()
  | path :: rest => do
    if (← Shell.stat path) ≠ .missing then
      Shell.cannot .mkdir .makeDirectory path .alreadyExists
    match ← Shell.attempt (·.createDirectory path) with
    | .error e => Shell.cannot .mkdir .makeDirectory path (.failed e)
    | .ok _ =>
      Shell.record .info (madeText path)
      makeEach rest

/-- **`mkdir`.** -/
def makeDirectories (call : Call) : Shell Text := do
  makeEach call.paths
  return []

/-! ## Listing -/

/-- The line of one entry of a directory. -/
def entryLine (v : Volume) (directory : Path) (indent name : Text) : Text :=
  indent ++ name ++ if v.stat (directory.child name) = .directory then ['/'] else []

/-- **The lines of a directory's entries.** -/
def entryLines (v : Volume) (directory : Path) (indent : Text) :
    Except ExecutionError (List Text) :=
  match v.names directory with
  | .ok names => .ok (names.map (entryLine v directory indent))
  | .error e => .error (.cannot "ls".toList .read directory (.failed e))

/-- The blanks before the entries of a directory that a wildcard matched. -/
def matchIndent : Text := [' ', ' ']

/-- **The lines of the paths that a wildcard matched.** -/
def matchLines (v : Volume) : List Path → Except ExecutionError (List Text)
  | [] => .ok []
  | path :: rest => do
    let block ←
      if v.stat path = .directory then
        ((path.listedName ++ ['/', ':']) :: ·) <$> entryLines v path matchIndent
      else .ok [path.listedName]
    let others ← matchLines v rest
    return block ++ others

/-- The lines of one path: a directory's entries, or the path itself. -/
def pathLines (v : Volume) (path : Path) : Except ExecutionError (List Text) :=
  match v.stat path with
  | .directory => entryLines v path []
  | .file => .ok [path.listedName]
  | .missing => .error (.cannot "ls".toList .access path .missing)

/-- **The lines that `ls` prints** for its first operand, or for the working directory. -/
def listLines (v : Volume) (cwd : Path) (call : Call) : Except ExecutionError (List Text) :=
  match call.operands.head? with
  | none => entryLines v cwd []
  | some (.matched paths) => matchLines v paths
  | some (.path path) => pathLines v path
  | some (.literal _) => .ok []

/-- **`ls`.** -/
def list (call : Call) : Shell Text := fun s =>
  match listLines s.volume s.session.cwd call with
  | .ok lines => .ok (Text.joined ['\n'] lines) s
  | .error e => .error (.execution e) s

end FileShell
