import FileShell.Calendar
import FileShell.Command.Browse
import FileShell.Command.Concatenate
import FileShell.Command.Directory
import FileShell.Command.Help
import FileShell.Command.Remove
import FileShell.Command.Transfer

/-! # Running a command -/

namespace FileShell

/-- **What a run depends on** besides the state. -/
structure Environment where
  /-- The configuration. -/
  config : Config
  /-- The time that the clock shows. -/
  now : Moment
deriving DecidableEq, Repr

/-- **A command run on a call.** The result is the output of its stage. -/
def Command.run (env : Environment) : Command → Call → Shell Text
  | .args, call => synopsis env.config call
  | .cat, call => FileShell.cat env.config.settings.stopWord call
  | .cd, call => changeDirectory call
  | .cp, call => transfer .cp call
  | .date, _ => return env.now.text
  | .exit, _ => throw .halt
  | .help, call => FileShell.help env.config call
  | .ls, call => list call
  | .mkdir, call => makeDirectories call
  | .more, call => FileShell.more env.config.settings.pageSize call
  | .mv, call => transfer .mv call
  | .pwd, _ => printDirectory
  | .rm, call => remove .rm call
  | .rmdir, call => remove .rmdir call

end FileShell
