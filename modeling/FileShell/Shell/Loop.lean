import FileShell.Shell.Execute

/-! # The read loop

Lines are read and run until the user asks to leave, the input ends or reading fails. Blank lines
are passed over; a line that fails is reported and the loop goes on. Every round reads at least one
line of the input, so there are no more rounds than lines to read. -/

namespace FileShell

/-- The prompt of the read loop. -/
def linePrompt (cwd : Path) : Text := cwd.text ++ " : ".toList

/-- How a failure is reported to the user. -/
def report (message : Text) : Text := "fsh: ".toList ++ message

/-- **The rounds of the read loop**, at most as many as given. -/
def rounds (env : Environment) : (rounds : Nat) → State → State
  | 0, s => s
  | n + 1, s =>
    let (answer, console) := s.console.ask (linePrompt s.session.cwd)
    let asked := { s with console }
    match answer with
    | .ok none => asked
    | .error reason => asked.warned (report ("cannot read input: ".toList ++ reason))
    | .ok (some line) =>
      if line.isAllBlank then rounds env n asked
      else
        match runLine env line asked with
        | .ok _ next => rounds env n next
        | .error .halt next => next
        | .error failure next => rounds env n (next.warned (report failure.message))

/-- **The read loop.** One round more than there are lines to read is enough, since the last one
finds the end of the input. -/
def readLoop (env : Environment) (s : State) : State :=
  let started := s.logged .info ("session start in ".toList ++ s.session.cwd.text)
  (rounds env (started.console.unread.length + 1) started).logged .info "session end".toList

end FileShell
