import FileShell.Command.Registry
import FileShell.Shell.State

/-! # The commands `help` and `args`

Both go through the catalogue, or through the one command in it that was asked for. -/

namespace FileShell

/-- **The commands that help is given on.** -/
def topics (config : Config) (command : Command) (call : Call) :
    Except ArgumentError (List Command) :=
  match call.literal? 0 with
  | none => .ok config.catalogue
  | some word =>
    match config.catalogue.find? (·.name = word) with
    | some topic => .ok [topic]
    | none => .error (.unknownTopic command.name word)

/-- The entry of a command in the help text: how it is called, and below that what it does. -/
def helpEntry (c : Command) : Text := c.usage ++ '\n' :: "    ".toList ++ c.summary

/-- The entries of the topics of a call, one below the other. -/
def describe (config : Config) (command : Command) (entry : Command → Text) (call : Call) :
    Shell Text :=
  Shell.ofExcept <|
    match topics config command call with
    | .ok commands => .ok (Text.joined ['\n'] (commands.map entry))
    | .error e => .error (.argument e)

/-- **`help`.** -/
def help (config : Config) (call : Call) : Shell Text := describe config .help helpEntry call

/-- **`args`.** -/
def synopsis (config : Config) (call : Call) : Shell Text :=
  describe config .args Command.usage call

end FileShell
