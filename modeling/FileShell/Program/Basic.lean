import FileShell.Program.Options
import FileShell.Settings.Document
import FileShell.Shell.Loop

/-! # The program

A run of the program goes from its options, its input and the files to an exit code, two outputs and
the files afterwards (`Launch.run`). The user's settings and the log are files below the home
directory. -/

namespace FileShell

/-! ## Input and output -/

/-- A typed line without the carriage returns at its end. -/
def withoutReturns (t : Text) : Text := (t.reverse.dropWhile (· = '\r')).reverse

/-- One line of the input, from its bytes. -/
def Input.ofBytes (bytes : List UInt8) : Input :=
  match textOfBytes? ⟨bytes.toArray⟩ with
  | some t => .line (withoutReturns t)
  | none => .failure FileError.invalidText.message

/-- The byte that ends a line. -/
def newlineByte : UInt8 := 10

/-- **The lines of the input.** What follows the last newline is a line if there is anything. -/
def inputsOfBytes (bytes : ByteArray) : List Input :=
  let pieces := bytes.toList.splitOnP (· == newlineByte)
  let lines := if pieces.getLast? = some [] then pieces.dropLast else pieces
  lines.map Input.ofBytes

/-- What an event adds to the first output. -/
def Event.output : Event → Text
  | .prompt t => t
  | .write t => t ++ ['\n']
  | .warn _ => []

/-- What an event adds to the second output. -/
def Event.errors : Event → Text
  | .warn t => t ++ ['\n']
  | _ => []

/-! ## Files below the home directory -/

/-- The file with the user's settings. -/
def configPath (home : Path) : Path := home.join ⟨".config/fsh/config.toml".toList⟩

/-- The directory of the log. -/
def logDirectory (home : Path) : Path := home.join ⟨".local/share/fsh".toList⟩

/-- The log. -/
def logPath (home : Path) : Path := (logDirectory home).join ⟨"fsh.log".toList⟩

/-- **The configuration of a user**, and whether there are settings that cannot be read. Settings
that are missing, or that are no text, are no settings. -/
def loadConfig (t : Tree) (home : Path) : Config × Bool :=
  match t.readText (configPath home) with
  | .error _ => (.default, false)
  | .ok text =>
    match Overlay.ofText? text with
    | some overlay => (Config.default.overlay overlay, false)
    | none => (.default, true)

/-- **The log opened**: it and the directories above it are made if they are missing and anything is
logged at all. No log is open if its file cannot be written. -/
def openLog (t : Tree) (home : Path) (filter : LogFilter) : Volume :=
  if filter = .off then .ofTree t
  else
    let made := (t.createDirectory (logDirectory home)).2
    match made.write (logPath home) [] .append, made.locateForWriting (logPath home) with
    | .ok opened, .ok location => { Volume.ofTree opened with log := some ⟨location, filter⟩ }
    | _, _ => .ofTree made

/-- The session that starts in the directory it is launched in. -/
def Session.ofLaunch (t : Tree) (cwd home : Path) : Session :=
  .start ((t.canonical? cwd).getD cwd) home

/-! ## Runs -/

/-- **What a run of the program depends on.** -/
structure Launch where
  /-- The words after the program's name. -/
  arguments : List Text
  /-- The bytes of its input. -/
  input : ByteArray
  /-- The directory in which it starts. -/
  cwd : Path
  /-- The user's home directory. -/
  home : Path
  /-- The files. -/
  tree : Tree
  /-- The time that the clock shows. -/
  now : Moment

/-- **How a run of the program ends.** -/
structure Exit where
  /-- The exit code. -/
  code : Nat
  /-- The first output. -/
  output : Text
  /-- The second output. -/
  errors : Text
  /-- The files afterwards. -/
  tree : Tree

namespace Launch

/-- The state in which the shell starts. -/
def initialState (p : Launch) (volume : Volume) : State where
  volume := volume
  session := .ofLaunch volume.tree p.cwd p.home
  console := ⟨inputsOfBytes p.input, []⟩
  journal := []

/-- One line run, and the exit code that follows from it. -/
def runOnce (env : Environment) (line : Text) (s : State) : Nat × State :=
  match runLine env line s with
  | .ok _ s' => (0, s')
  | .error .halt s' => (0, s')
  | .error failure s' => (1, s'.warned (report failure.message))

/-- The warning about settings that cannot be read. The reason is not told; a mark stands in its
place. -/
def configWarning : Text := report "config parse error: <toml error>\n".toList

/-- The configuration written out, or a report that it cannot be. The reason is not told either. -/
def dumpConfig (p : Launch) (config : Config) (warning : Text) : Exit :=
  match config.text? with
  | some text => ⟨0, text, warning, p.tree⟩
  | none => ⟨1, [], warning ++ report "cannot render config: <toml error>\n".toList, p.tree⟩

/-- The shell run on one line, or on the lines of the input. -/
def runShell (p : Launch) (config : Config) (warning : Text) (line : Option Text) : Exit :=
  let env : Environment := ⟨config, p.now⟩
  let start := p.initialState (openLog p.tree p.home (.ofName config.settings.logLevel))
  let (code, s) :=
    match line with
    | some line => runOnce env line start
    | none => (0, readLoop env start)
  { code
    output := s.console.events.flatMap Event.output
    errors := warning ++ s.console.events.flatMap Event.errors
    tree := s.volume.tree }

/-- **A run of the program.** -/
def run (p : Launch) : Exit :=
  let (config, broken) := loadConfig p.tree p.home
  let warning := if broken then configWarning else []
  match Options.none.read p.arguments with
  | .error e => ⟨2, [], e.text, p.tree⟩
  | .ok .help => ⟨0, helpText, [], p.tree⟩
  | .ok .version => ⟨0, versionText, [], p.tree⟩
  | .ok .dump => p.dumpConfig config warning
  | .ok .interact => p.runShell config warning none
  | .ok (.run line) => p.runShell config warning (some line)

end Launch

end FileShell
