import FileShell.Text.Blank

/-! # The log

Lines, stages and changes are recorded in a log. A record is kept if the level set in the
configuration covers its own. -/

namespace FileShell

/-- The level of a record. -/
inductive Level
  | warning
  | info
deriving DecidableEq, Repr

/-- **A record of the log.** -/
structure Record where
  /-- Its level. -/
  level : Level
  /-- Its text. -/
  text : Text
deriving DecidableEq, Repr

/-- **How much is logged.** -/
inductive LogFilter
  | off | error | warning | info | debug | trace
deriving DecidableEq, Repr

namespace LogFilter

/-- A letter in lower case; any other character as it is. -/
def lower (t : Text) : Text := t.map Char.toLower

/-- **The filter of a level's name**, blanks around it and the case of its letters left out of
account. A name that means nothing stands for the level of plain information. -/
def ofName (name : Text) : LogFilter :=
  let word := lower name.trim
  if word = "off".toList then .off
  else if word = "error".toList then .error
  else if word = "warn".toList ∨ word = "warning".toList then .warning
  else if word = "debug".toList then .debug
  else if word = "trace".toList then .trace
  else .info

/-- The name of a filter. -/
def name : LogFilter → Text
  | .off => "off".toList
  | .error => "error".toList
  | .warning => "warn".toList
  | .info => "info".toList
  | .debug => "debug".toList
  | .trace => "trace".toList

/-- Whether records of a level are kept. -/
def covers : LogFilter → Level → Bool
  | .off, _ | .error, _ => false
  | .warning, level => level = .warning
  | .info, _ | .debug, _ | .trace, _ => true

end LogFilter

/-- The most characters of a line that a record shows. -/
def maxLineShown : Nat := 200

/-- **A line on one line**, as records show it: newlines become semicolons, and only the start is
kept. -/
def onOneLine (t : Text) : Text :=
  (t.flatMap fun c => if c = '\n' then [';', ' '] else [c]).take maxLineShown

/-- A record as a line of the log file, after the time. -/
def Record.line (r : Record) : Text :=
  match r.level with
  | .info => "[INFO] ".toList ++ r.text
  | .warning => "[WARN] ".toList ++ r.text

end FileShell
