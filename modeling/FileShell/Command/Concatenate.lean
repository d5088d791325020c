import FileShell.Shell.State

/-! # The command `cat`

With operands the output is the files' texts one after the other. Without operands it is the text
piped in; and without that either, the lines that the user types up to the stop word. -/

namespace FileShell

/-- **The lines typed before the stop word**, each with a newline, on the rest of the input and
after the given events. -/
def typedText (stopWord : Text) (events : List Event) : List Input → Except Text Text × Console
  | [] => (.ok [], ⟨[], events ++ [.prompt []]⟩)
  | .failure reason :: rest => (.error reason, ⟨rest, events ++ [.prompt []]⟩)
  | .line t :: rest =>
    if t = stopWord then (.ok [], ⟨rest, events ++ [.prompt []]⟩)
    else
      let (text, c) := typedText stopWord (events ++ [.prompt []]) rest
      ((t ++ '\n' :: ·) <$> text, c)

/-- What the user is told before typing. -/
def typingNotice (stopWord : Text) : Text :=
  "Accepting input from user: (type '".toList ++ stopWord ++ "' to terminate)".toList

/-- The text that the user types. -/
def readTyped (stopWord : Text) : Shell Text := do
  Shell.write (typingNotice stopWord)
  match ← Shell.converse fun c => typedText stopWord c.events c.unread with
  | .ok text => return text
  | .error reason => throw (.execution (.cannotRead "cat".toList reason))

/-- The text of one file for `cat`. -/
def fileText (v : Volume) (path : Path) : Except ExecutionError Text :=
  match v.stat path with
  | .directory => .error (.unusable "cat".toList path .isDirectory)
  | .missing => .error (.unusable "cat".toList path .missing)
  | .file => (v.readText path).mapError fun e => .cannot "cat".toList .read path (.failed e)

/-- **The texts of files one after the other.** -/
def fileTexts (v : Volume) : List Path → Except ExecutionError Text
  | [] => .ok []
  | path :: rest => do
    let text ← fileText v path
    let others ← fileTexts v rest
    return text ++ others

/-- **`cat`.** -/
def cat (stopWord : Text) (call : Call) : Shell Text :=
  if call.operands.isEmpty then
    match call.piped with
    | some text => return text
    | none => readTyped stopWord
  else do
    Shell.ofExcept ((← Shell.look (fileTexts · call.paths)).mapError .execution)

end FileShell
