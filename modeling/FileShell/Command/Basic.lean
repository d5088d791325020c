import FileShell.Command.Signature

/-! # The commands

There are fourteen commands, listed here with the words that the help commands show and the signature
that parsing checks. -/

namespace FileShell

/-- **A command.** -/
inductive Command
  | args | cat | cd | cp | date | exit | help | ls | mkdir | more | mv | pwd | rm | rmdir
deriving DecidableEq, Repr

namespace Command

/-- **The built-in commands** in the order in which they are registered. -/
def builtIn : List Command :=
  [.cp, .mv, .rm, .rmdir, .mkdir, .cd, .pwd, .ls, .cat, .more, .help, .args, .date, .exit]

/-- A command's name. -/
def name : Command → Text
  | .args => "args".toList
  | .cat => "cat".toList
  | .cd => "cd".toList
  | .cp => "cp".toList
  | .date => "date".toList
  | .exit => "exit".toList
  | .help => "help".toList
  | .ls => "ls".toList
  | .mkdir => "mkdir".toList
  | .more => "more".toList
  | .mv => "mv".toList
  | .pwd => "pwd".toList
  | .rm => "rm".toList
  | .rmdir => "rmdir".toList

/-- **The command of a name**, if there is one. -/
def ofName? (word : Text) : Option Command := builtIn.find? (·.name = word)

/-- Every command is found by its name. -/
@[simp] theorem ofName?_name (c : Command) : ofName? c.name = some c := by
  cases c <;> rfl

/-- Every command is built in. -/
theorem mem_builtIn (c : Command) : c ∈ builtIn := by cases c <;> decide

/-- How a command is called. -/
def usage : Command → Text
  | .args => "args [COMMAND]".toList
  | .cat => "cat [PATH...]".toList
  | .cd => "cd [DIR]".toList
  | .cp => "cp SOURCE... DEST".toList
  | .date => "date".toList
  | .exit => "exit".toList
  | .help => "help [COMMAND]".toList
  | .ls => "ls [PATH]".toList
  | .mkdir => "mkdir DIR...".toList
  | .more => "more [PATH]".toList
  | .mv => "mv SOURCE... DEST".toList
  | .pwd => "pwd".toList
  | .rm => "rm [-r] PATH...".toList
  | .rmdir => "rmdir [-r] DIR...".toList

/-- What a command does, in a sentence or two. -/
def summary : Command → Text
  | .args => "Show the argument synopsis of one command, or all of them.".toList
  | .cat =>
    ("Concatenate files. With no argument, " ++
      "echo piped input or read lines until the stop word.").toList
  | .cd => "Change the working directory. With no argument, go home.".toList
  | .cp => "Copy files to DEST, or into DEST when it is a directory.".toList
  | .date => "Print the local date and time.".toList
  | .exit => "Leave the shell.".toList
  | .help => "Describe one command, or all of them.".toList
  | .ls => "List a directory, one name per line; directories end in '/'.".toList
  | .mkdir => "Create directories, including missing parents.".toList
  | .more =>
    "Page through a file or piped input. Enter: line, Space: page, b: back, q: quit.".toList
  | .mv => "Move files to DEST, or into DEST when it is a directory.".toList
  | .pwd => "Print the working directory.".toList
  | .rm =>
    ("Remove files and empty directories. " ++
      "A non-empty directory needs -r or confirmation.").toList
  | .rmdir => "Remove directories. A non-empty directory needs -r or confirmation.".toList

/-- The option with which directories are removed unasked. -/
def recursiveOption : Text := ['-', 'r']

/-- The signature of the commands that copy and move. -/
def transferSignature : Signature :=
  ⟨⟨2, none⟩, [], .sourcesThenDestination .singleOrWildcard .single⟩

/-- **A command's signature.** -/
def signature : Command → Signature
  | .args | .help => .uniform 0 (some 1) .free
  | .cat => .uniform 0 none .singleOrWildcard
  | .cd => .uniform 0 (some 1) .directory
  | .cp | .mv => transferSignature
  | .date | .exit | .pwd => .uniform 0 (some 0) .free
  | .ls => .uniform 0 (some 1) .singleOrWildcard
  | .mkdir => .uniform 1 none .single
  | .more => .uniform 0 (some 1) .single
  | .rm => ⟨⟨1, none⟩, [recursiveOption], .uniform .singleOrWildcard⟩
  | .rmdir => ⟨⟨1, none⟩, [recursiveOption], .uniform .single⟩

end Command

end FileShell
