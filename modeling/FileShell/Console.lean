import FileShell.Text.Basic

/-! # The console

All that passes between the user and the commands, apart from the lines' outputs, goes over a
console. What the user will type is given as a list in advance; what is shown is kept in order. -/

namespace FileShell

/-- **One attempt of the user to type a line.** -/
inductive Input
  /-- The line, without its end. -/
  | line (text : Text)
  /-- Reading it fails, for this reason. -/
  | failure (reason : Text)
deriving DecidableEq, Repr

/-- **What the console shows.** -/
inductive Event
  /-- A prompt, before a line is read. -/
  | prompt (text : Text)
  /-- A text on lines of its own. -/
  | write (text : Text)
  /-- A warning on lines of its own. -/
  | warn (text : Text)
deriving DecidableEq, Repr

/-- **A console**: the input that has not been read, and what was shown. -/
structure Console where
  /-- What is still to be read. -/
  unread : List Input
  /-- What was shown, in order. -/
  events : List Event
deriving DecidableEq, Repr

namespace Console

/-- One more thing shown. -/
def emit (c : Console) (e : Event) : Console := { c with events := c.events ++ [e] }

/-- A text shown. -/
def write (c : Console) (t : Text) : Console := c.emit (.write t)

/-- A warning shown. -/
def warn (c : Console) (t : Text) : Console := c.emit (.warn t)

/-- **A line read after a prompt**: nothing at the end of the input. -/
def ask (c : Console) (prompt : Text) : Except Text (Option Text) × Console :=
  let shown := c.emit (.prompt prompt)
  match c.unread with
  | [] => (.ok none, shown)
  | .line t :: rest => (.ok (some t), { shown with unread := rest })
  | .failure reason :: rest => (.error reason, { shown with unread := rest })

end Console

end FileShell
