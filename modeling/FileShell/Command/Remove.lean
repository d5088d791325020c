import FileShell.Shell.State

/-! # The commands `rm` and `rmdir`

Operands are removed in order, and the first failure ends the run. A directory that has entries is
removed only with the option to do so, or if the user agrees when asked; otherwise it stays, which
is no failure. -/

namespace FileShell

/-- **What the user answers** to a question. -/
inductive Answer
  /-- Agreement. -/
  | proceed
  /-- Refusal. -/
  | declined
  /-- Anything else, or nothing at all. -/
  | aborted
deriving DecidableEq, Repr

/-- The answer in a typed line: its first character decides. -/
def Answer.ofLine (t : Text) : Answer :=
  match t.head? with
  | some c =>
    if c = 'y' ∨ c = 'Y' then .proceed else if c = 'n' ∨ c = 'N' then .declined else .aborted
  | none => .aborted

/-- **A question asked once.** -/
def confirm (prompt : Text) : Shell Answer := do
  match ← Shell.ask prompt with
  | .ok (some t) => return Answer.ofLine t
  | .ok none => return .aborted
  | .error reason =>
    Shell.record .warning ("confirmation prompt failed: ".toList ++ reason)
    return .aborted

/-- The question before a directory with entries is removed. -/
def removalPrompt (command : Command) (path : Path) : Text :=
  command.name ++ ": ".toList ++ path.shownName ++
    " is not empty, remove it and everything in it? [y/n] ".toList

/-- The record of a directory that stays because the user has declined. -/
def declinedText (command : Command) (path : Path) : Text :=
  command.name ++ ": declined removal of ".toList ++ path.text

/-- The record that follows an operand. -/
def removalText (command : Command) (path : Path) : Text :=
  command.name ++ ": ".toList ++ path.text

/-- A change that removes something, attempted for a command; its failure is one of the
command's. -/
def removeWith (command : Command) (path : Path)
    (change : Volume → Except FileError Unit × Volume) : Shell Unit := do
  match ← Shell.attempt change with
  | .ok _ => return ()
  | .error e => Shell.cannot command .remove path (.failed e)

/-- A directory with entries, removed if that was asked for or is agreed to. -/
def removeFull (command : Command) (recursive : Bool) (path : Path) : Shell Unit := do
  let answer ← if recursive then pure .proceed else confirm (removalPrompt command path)
  match answer with
  | .proceed => removeWith command path (·.removeAll path)
  | .declined =>
    Shell.record .info (declinedText command path)
    Shell.write (command.name ++ ": aborted, ".toList ++ path.shownName ++ " left in place".toList)
  | .aborted =>
    Shell.record .warning (command.name ++ ": no confirmation for ".toList ++ path.text)
    Shell.warn
      (command.name ++ ": no confirmation given, ".toList ++ path.shownName ++
        " left in place".toList)

/-- **A directory removed**, after a look whether it has entries. -/
def removeDirectory (command : Command) (recursive : Bool) (path : Path) : Shell Unit := do
  match ← Shell.look (·.names path) with
  | .error e => Shell.cannot command .read path (.failed e)
  | .ok names =>
    if names.isEmpty then removeWith command path (·.removeDirectory path)
    else removeFull command recursive path

/-- **One operand removed.** -/
def removeOne (command : Command) (recursive : Bool) (path : Path) : Shell Unit := do
  match ← Shell.stat path with
  | .missing => Shell.cannot command .remove path .missing
  | .file =>
    if command = .rmdir then Shell.cannot command .remove path .notDirectory
    else removeWith command path (·.removeFile path)
  | .directory => removeDirectory command recursive path

/-- **The operands removed in order**, each followed by a record with its path. -/
def removeOperands (command : Command) (recursive : Bool) : List Path → Shell Unit
  | [] => return ()
  | path :: rest => do
    removeOne command recursive path
    Shell.record .info (removalText command path)
    removeOperands command recursive rest

/-- **`rm` and `rmdir`.** -/
def remove (command : Command) (call : Call) : Shell Text := do
  removeOperands command (call.has Command.recursiveOption) call.paths
  return []

end FileShell
