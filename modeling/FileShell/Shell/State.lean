import FileShell.Command.Basic
import FileShell.Command.Call
import FileShell.Console
import FileShell.Journal

/-! # The state of the shell

Everything that a command can look at or change is one value, and a command is a function on it that
ends with a result or with a failure (`Shell`). A failure keeps the state that was reached. The
steps below each touch one field of the state and leave the others alone; their equations say so.
The one exception is a record, which is also written to the log if a file of the volume is open for
it. -/

namespace FileShell

/-- **The state of the shell.** -/
structure State where
  /-- The files. -/
  volume : Volume
  /-- The working directory and the home directory. -/
  session : Session
  /-- What the user will type, and what was shown. -/
  console : Console
  /-- The records that were made, in order. -/
  journal : List Record

namespace State

/-- A state with one more record made. -/
def logged (s : State) (level : Level) (t : Text) : State :=
  { s with journal := s.journal ++ [⟨level, t⟩], volume := s.volume.logged ⟨level, t⟩ }

/-- Without a file for the log a record touches the journal alone. -/
theorem logged_of_log_eq_none {s : State} (h : s.volume.log = none) (level : Level) (t : Text) :
    s.logged level t = { s with journal := s.journal ++ [⟨level, t⟩] } := by
  simp [logged, Volume.logged_of_log_eq_none h]

/-- A state with one more warning shown. -/
def warned (s : State) (t : Text) : State := { s with console := s.console.warn t }

end State

/-- **A run of the shell**: from a state to a result or a failure, and the state reached. -/
abbrev Shell (α : Type) := EStateM Failure State α

namespace Shell

/-- What a path leads to at this moment. -/
def stat (p : Path) : Shell Presence := fun s => .ok (s.volume.stat p) s

/-- What can be learned by looking at the files. -/
def look {α : Type} (question : Volume → α) : Shell α := fun s => .ok (question s.volume) s

/-- **A change to the files, attempted**: its failure is a result like any other. -/
def attempt (change : Volume → Except FileError Unit × Volume) : Shell (Except FileError Unit) :=
  fun s => .ok (change s.volume).1 { s with volume := (change s.volume).2 }

/-- **Something done at the console.** -/
def converse {α : Type} (talk : Console → α × Console) : Shell α :=
  fun s => .ok (talk s.console).1 { s with console := (talk s.console).2 }

/-- A record made. -/
def record (level : Level) (t : Text) : Shell Unit := fun s => .ok () (s.logged level t)

/-- A result, or the failure that it stands for. -/
def ofExcept {α : Type} : Except Failure α → Shell α
  | .ok a => fun s => .ok a s
  | .error e => fun s => .error e s

/-- A text shown. -/
def write (t : Text) : Shell Unit := converse fun c => ((), c.write t)

/-- A warning shown. -/
def warn (t : Text) : Shell Unit := converse fun c => ((), c.warn t)

/-- A line read after a prompt. -/
def ask (prompt : Text) : Shell (Except Text (Option Text)) := converse (·.ask prompt)

@[simp] theorem stat_apply (p : Path) (s : State) : stat p s = .ok (s.volume.stat p) s := rfl

@[simp] theorem attempt_apply (change : Volume → Except FileError Unit × Volume) (s : State) :
    attempt change s = .ok (change s.volume).1 { s with volume := (change s.volume).2 } := rfl

@[simp] theorem record_apply (level : Level) (t : Text) (s : State) :
    record level t s = .ok () (s.logged level t) := rfl

@[simp] theorem write_apply (t : Text) (s : State) :
    write t s = .ok () { s with console := s.console.write t } := rfl

@[simp] theorem warn_apply (t : Text) (s : State) : warn t s = .ok () (s.warned t) := rfl

@[simp] theorem ask_apply (prompt : Text) (s : State) :
    ask prompt s =
      .ok (s.console.ask prompt).1 { s with console := (s.console.ask prompt).2 } := rfl

/-- A failure to use a path. -/
def cannot {α : Type} (command : Command) (action : Action) (path : Path) (obstacle : Obstacle) :
    Shell α :=
  throw (.execution (.cannot command.name action path obstacle))

end Shell

end FileShell
