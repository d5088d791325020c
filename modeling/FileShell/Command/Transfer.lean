import FileShell.Shell.State

/-! # The commands `cp` and `mv`

Every source that is a file is copied, in order, to the destination or into it if it is a directory;
sources that are directories are left alone with a warning. Moving removes the sources that were
copied, and only after every copy has succeeded, so a move that fails has removed nothing. -/

namespace FileShell

/-- **Where a source is copied to**: into the destination under its own name if the destination is a
directory, to the destination itself otherwise. -/
def transferTarget (destination : Path) (isDirectory : Bool) (source : Path) : Path :=
  match source.fileName? with
  | some name => if isDirectory then destination.child name else destination
  | none => destination

/-- A source that is a directory, left alone. -/
def ignoreDirectory (command : Command) (source : Path) : Shell Unit := do
  let notice := command.name ++ ": directory ".toList ++ source.shownName ++ " was ignored".toList
  Shell.record .warning notice
  Shell.warn notice

/-- What is recorded of a copy, behind the name of the command. -/
def copyNote (source target : Path) : Text :=
  ": ".toList ++ source.text ++ " -> ".toList ++ target.text

/-- What is recorded of a source that was copied but is still there, behind the name of the
command. -/
def leftNote (source : Path) (e : FileError) : Text :=
  ": copied ".toList ++ source.text ++ " but could not remove it: ".toList ++ e.message

/-- A source that is a file, copied. -/
def copyOne (command : Command) (source target : Path) : Shell Unit := do
  if target.parts = source.parts then
    throw (.execution (.sameFile command.name source target))
  match ← Shell.attempt (·.copyFile source target) with
  | .error e => Shell.cannot command .copy source (.failed e)
  | .ok _ => Shell.record .info (command.name ++ copyNote source target)

/-- **The sources copied in order**; the result lists those that were copied. -/
def copyEach (command : Command) (target : Path → Path) : List Path → Shell (List Path)
  | [] => return []
  | source :: rest => do
    match ← Shell.stat source with
    | .directory =>
      ignoreDirectory command source
      copyEach command target rest
    | .missing => Shell.cannot command .copy source .missing
    | .file =>
      copyOne command source (target source)
      let copied ← copyEach command target rest
      return source :: copied

/-- **The sources that were copied, removed in order.** One that cannot be removed is only
logged. -/
def removeEach (command : Command) : List Path → Shell Unit
  | [] => return ()
  | source :: rest => do
    match ← Shell.attempt (·.removeFile source) with
    | .ok _ => pure ()
    | .error e => Shell.record .warning (command.name ++ leftNote source e)
    removeEach command rest

/-- **`cp` and `mv`.** -/
def transfer (command : Command) (call : Call) : Shell Text :=
  match call.paths.getLast? with
  | none => throw (.argument (.missingDestination command.name))
  | some destination => do
    let isDirectory := decide ((← Shell.stat destination) = .directory)
    let copied ← copyEach command (transferTarget destination isDirectory) call.paths.dropLast
    if command = .mv then removeEach command copied
    return []

end FileShell
