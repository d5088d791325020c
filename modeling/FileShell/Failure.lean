import FileShell.Line.Stages
import FileShell.Volume.Walk
import FileShell.Command.Signature

/-! # Failures

A line fails with one cause. The causes come in four kinds, by what has to be known before they
arise: the line's form, its words and their number, the paths that the words name, the files. The
request to leave the shell ends a line the same way but is no failure. Causes carry what their
message shows; the wording is in the functions `message` alone. -/

namespace FileShell

/-! ## Arguments -/

/-- **Why a command cannot be called** with the words given. -/
inductive ArgumentError
  /-- No command has this name. -/
  | unknownCommand (word : Text)
  /-- The command is switched off. -/
  | disabledCommand (name : Text)
  /-- The word looks like an option but is none of the command's. -/
  | unknownOption (command word : Text)
  /-- There are fewer operands than the command takes. -/
  | tooFew (command : Text) (arity : Arity) (count : Nat)
  /-- There are more operands than the command takes. -/
  | tooMany (command : Text) (arity : Arity) (count : Nat)
  /-- The word is a wildcard where a single path is needed. -/
  | notSingle (command word : Text)
  /-- The word does not name an existing directory. -/
  | notDirectory (command word : Text)
  /-- More than one source, or a directory, for a destination that is no directory. -/
  | ambiguousDestination (command word : Text)
  /-- There is no path to copy to. -/
  | missingDestination (command : Text)
  /-- There is no help on the word. -/
  | unknownTopic (command word : Text)
  /-- The pager knows no such key. -/
  | unsupportedKey (key : Text)
deriving DecidableEq, Repr

/-- The wording of a wrong number of operands. -/
def countMessage (command problem : Text) (arity : Arity) (count : Nat) : Text :=
  command ++ ": too ".toList ++ problem ++ " arguments (expects ".toList ++ arity.text ++
    ", got ".toList ++ Text.ofNat count ++ ")".toList

/-- The wording of an error in the arguments. -/
def ArgumentError.message : ArgumentError → Text
  | .unknownCommand word => shown word ++ " is not a supported command".toList
  | .disabledCommand name => name ++ ": command disabled by configuration".toList
  | .unknownOption command word => command ++ ": unknown option ".toList ++ shown word
  | .tooFew command arity count => countMessage command "few".toList arity count
  | .tooMany command arity count => countMessage command "many".toList arity count
  | .notSingle command word =>
    command ++ ": ".toList ++ shown word ++ " must be a single path, not a wildcard".toList
  | .notDirectory command word =>
    command ++ ": ".toList ++ shown word ++ " is not a directory".toList
  | .ambiguousDestination command word =>
    command ++ ": destination ".toList ++ shown word ++
      " is ambiguous: not an existing directory".toList
  | .missingDestination command => command ++ ": missing destination".toList
  | .unknownTopic command word =>
    command ++ ": ".toList ++ shown word ++ " is not a supported command".toList
  | .unsupportedKey key =>
    "more: unsupported input ".toList ++ shown key ++ "; use Enter, Space, b or q".toList

/-! ## Paths -/

/-- **Why a word names no path.** -/
inductive PathError
  /-- It is neither a single path nor a wildcard. -/
  | invalid (word : Text)
  /-- It is a wildcard without a match. -/
  | noMatch (word : Text)
deriving DecidableEq, Repr

/-- The wording of an error in a path. -/
def PathError.message : PathError → Text
  | .invalid word => shown word ++ " is not a valid path".toList
  | .noMatch word => shown word ++ ": no such file or directory".toList

/-! ## Files -/

/-- What a command was about to do to a path. -/
inductive Action
  | access | copy | makeDirectory | read | remove
deriving DecidableEq, Repr

/-- An action as messages name it. -/
def Action.text : Action → Text
  | .access => "access".toList
  | .copy => "copy".toList
  | .makeDirectory => "create directory".toList
  | .read => "read".toList
  | .remove => "remove".toList

/-- What stands in the way of an action. -/
inductive Obstacle
  /-- Nothing stands at the path. -/
  | missing
  /-- Something other than a directory stands there. -/
  | notDirectory
  /-- A directory stands there. -/
  | isDirectory
  /-- Something stands there already. -/
  | alreadyExists
  /-- The operation itself failed. -/
  | failed (cause : FileError)
deriving DecidableEq, Repr

/-- The wording of an obstacle. -/
def Obstacle.message : Obstacle → Text
  | .missing => "No such file or directory".toList
  | .notDirectory => "Not a directory".toList
  | .isDirectory => "Is a directory".toList
  | .alreadyExists => "already exists".toList
  | .failed cause => cause.message

/-- **Why a command fails while it runs.** -/
inductive ExecutionError
  /-- The command cannot do this to the path. -/
  | cannot (command : Text) (action : Action) (path : Path) (obstacle : Obstacle)
  /-- The command has no use for the path. -/
  | unusable (command : Text) (path : Path) (obstacle : Obstacle)
  /-- The path cannot become the working directory. -/
  | unreachable (path : Path) (obstacle : Obstacle)
  /-- A file would be copied onto itself. -/
  | sameFile (command : Text) (source target : Path)
  /-- The output cannot be written to the file. -/
  | cannotWrite (path : Path) (cause : FileError)
  /-- The console's input cannot be read. -/
  | cannotRead (command : Text) (reason : Text)
deriving DecidableEq, Repr

/-- The wording of an error while a command runs. -/
def ExecutionError.message : ExecutionError → Text
  | .cannot command action path obstacle =>
    command ++ ": cannot ".toList ++ action.text ++ ' ' :: path.shownName ++ ": ".toList ++
      obstacle.message
  | .unusable command path obstacle =>
    command ++ ": ".toList ++ path.shownName ++ ": ".toList ++ obstacle.message
  | .unreachable path obstacle => "cd: ".toList ++ path.text ++ ": ".toList ++ obstacle.message
  | .sameFile command source target =>
    command ++ ": ".toList ++ source.shownName ++ " and ".toList ++ target.shownName ++
      " are the same file".toList
  | .cannotWrite path cause =>
    "cannot write ".toList ++ path.text ++ ": ".toList ++ cause.message
  | .cannotRead command reason => command ++ ": cannot read input: ".toList ++ reason

/-! ## All kinds -/

/-- **Why a line ends early.** -/
inductive Failure
  /-- The line has no form that can be read. -/
  | line (cause : LineError)
  /-- A command cannot be called with its words. -/
  | argument (cause : ArgumentError)
  /-- A word names no path. -/
  | path (cause : PathError)
  /-- A command failed while it ran. -/
  | execution (cause : ExecutionError)
  /-- The user asked to leave the shell. -/
  | halt
deriving DecidableEq, Repr

namespace Failure

/-- The wording of a failure. -/
def message : Failure → Text
  | .line cause => "syntax error: ".toList ++ cause.message
  | .argument cause => cause.message
  | .path cause => cause.message
  | .execution cause => cause.message
  | .halt => "halt requested".toList

/-- The kind of a failure, as the log names it. -/
def label : Failure → Text
  | .line _ => "syntax".toList
  | .argument _ => "argument".toList
  | .path _ => "path".toList
  | .execution _ => "execution".toList
  | .halt => "halt".toList

end Failure

end FileShell
