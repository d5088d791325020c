import FileShell.Text.Likeness

/-! # The options of the program

The program reads lines from its input, or runs the one line that it is given, or prints its
configuration. Options are taken in order. The option for a line is **pending** until the next one
is looked at or the options end: only then is its line there, or missing, or one too many. A message
about options shows how the program is used, as far as the options given so far tell, and names an
option that is much like an unknown one. -/

namespace FileShell

/-- **What the program is asked to do.** -/
inductive Request
  /-- Read lines and run them. -/
  | interact
  /-- Run one line. -/
  | run (line : Text)
  /-- Print the configuration. -/
  | dump
  /-- Explain the options. -/
  | help
  /-- Print the version. -/
  | version
deriving DecidableEq, Repr

/-- An option without a value. -/
inductive Switch
  | dump | help | version
deriving DecidableEq, Repr

/-- A switch as it is written. -/
def Switch.text : Switch → Text
  | .dump => "--dump-config".toList
  | .help => "--help".toList
  | .version => "--version".toList

/-- A switch's name, which is written behind two dashes. -/
def Switch.name (s : Switch) : Text := s.text.drop 2

/-- All switches. -/
def Switch.all : List Switch := [.dump, .help, .version]

/-- The switch of a name. -/
def Switch.ofName? (name : Text) : Option Switch := Switch.all.find? (·.name = name)

/-- The likeness above which a name may have been meant for another one. -/
def similarEnough : Binary := .nearest 7 10

/-- Of two switches the one whose name is more like a name; the second one if both are alike. -/
def Switch.closer (name : Text) (best : Option Switch) (s : Switch) : Option Switch :=
  match best with
  | none => some s
  | some b => if (name.likeness s.name).isLess (name.likeness b.name) then some b else some s

/-- **The switch that may have been meant** by a name: the one most like it, if it is enough
so. -/
def Switch.similarTo? (name : Text) : Option Switch :=
  (Switch.all.filter fun s => similarEnough.isLess (name.likeness s.name)).foldl
    (Switch.closer name) none

/-- The option for a line, as messages name it. -/
def lineOption : Text := "-c <LINE>".toList

/-- **Why the options make no sense.** -/
inductive UsageError
  /-- Nothing of this form is known. -/
  | unexpected (argument : Text)
  /-- No long option has this name; perhaps a switch was meant, and some options were given
  before. -/
  | unknownName (name : Text) (similar : Option Switch) (given : List Text)
  /-- The option is there twice. -/
  | repeated (option : Text)
  /-- The two options exclude each other. -/
  | conflict (first second : Text)
  /-- A switch has a value; perhaps it is the first option. -/
  | unexpectedValue (switch : Switch) (value : Text) (isFirst : Bool)
  /-- The option for a line has no line. -/
  | missingLine
deriving DecidableEq, Repr

namespace UsageError

/-- The wording of an error in the options. -/
def message : UsageError → Text
  | .unexpected argument => "unexpected argument '".toList ++ argument ++ "' found".toList
  | .unknownName name _ _ => "unexpected argument '--".toList ++ name ++ "' found".toList
  | .repeated option =>
    "the argument '".toList ++ option ++ "' cannot be used multiple times".toList
  | .conflict first second =>
    "the argument '".toList ++ first ++ "' cannot be used with '".toList ++ second ++ ['\'']
  | .unexpectedValue switch value _ =>
    "unexpected value '".toList ++ value ++ "' for '".toList ++ switch.text ++
      "' found; no more were expected".toList
  | .missingLine =>
    "a value is required for '".toList ++ lineOption ++ "' but none was supplied".toList

/-- Any options at all, in a usage. -/
def anyOptions : Text := "[OPTIONS]".toList

/-- One of the options that decide what is run, in a usage. -/
def mainOptions : Text := '<' :: lineOption ++ '|' :: Switch.dump.text ++ ['>']

/-- The usage with some options, each of them once. -/
def usageWith (given : List Text) (similar : Option Switch) : Text :=
  let options := given ++ (similar.toList.map Switch.text).filter (!given.contains ·)
  if options.isEmpty then anyOptions else Text.joined [' '] options

/-- The usage of a switch without a value. Behind other options those that decide what is run are
shown as a choice, and the switch on its own only if it is none of them. -/
def usageOfSwitch (switch : Switch) (isFirst : Bool) : Text :=
  if isFirst then switch.text
  else if switch = .dump then mainOptions
  else switch.text ++ ' ' :: mainOptions

/-- The usage that is shown with an error, if any is. -/
def usage? : UsageError → Option Text
  | .unexpected _ | .repeated _ => some anyOptions
  | .unknownName _ similar given => some (usageWith given similar)
  | .conflict first _ => some first
  | .unexpectedValue switch _ isFirst => some (usageOfSwitch switch isFirst)
  | .missingLine => none

/-- The switch that an error suggests, if it suggests one. -/
def suggestion? : UsageError → Option Switch
  | .unknownName _ similar _ => similar
  | _ => none

/-- A text on a line of its own with an empty line after it. -/
def paragraph (t : Text) : Text := t ++ "\n\n".toList

/-- **An error in the options**, with what may have been meant and with the usage. -/
def text (e : UsageError) : Text :=
  let suggestion := e.suggestion?.toList.flatMap fun switch =>
    paragraph ("  tip: a similar argument exists: '".toList ++ switch.text ++ ['\''])
  let usage := e.usage?.toList.flatMap fun usage => paragraph ("Usage: fsh ".toList ++ usage)
  paragraph ("error: ".toList ++ e.message) ++ suggestion ++ usage ++
    "For more information, try '--help'.\n".toList

end UsageError

/-- The explanation of the options. -/
def helpText : Text :=
  ("Line-oriented filesystem shell\n\nUsage: fsh [OPTIONS]\n\nOptions:\n" ++
    "  -c <LINE>          Run one line and exit\n" ++
    "      --dump-config  Print the merged configuration as TOML and exit\n" ++
    "  -h, --help         Print help\n" ++
    "  -V, --version      Print version\n").toList

/-- The name and the version of the program. -/
def versionText : Text := "fsh 0.1.0\n".toList

/-! ## Reading options -/

/-- **The options read so far.** -/
structure Options where
  /-- The line to run. -/
  line : Option Text
  /-- Whether the configuration is to be printed. -/
  dump : Bool
  /-- Whether that was asked for before a line was given. -/
  dumpFirst : Bool
  /-- The option for a line that was read last, with its line if that was read too. -/
  pending : Option (Option Text)
deriving DecidableEq, Repr

namespace Options

/-- No options at all. -/
def none : Options := ⟨.none, false, false, .none⟩

/-- The options after a line. -/
def withLine (o : Options) (line : Text) : Except UsageError Options :=
  if o.line.isSome then .error (.repeated lineOption) else .ok { o with line := some line }

/-- **The options with nothing pending.** -/
def settle (o : Options) : Except UsageError Options :=
  match o.pending with
  | .none => .ok o
  | some .none => .error .missingLine
  | some (some line) => { o with pending := .none }.withLine line

/-- The options given so far, in order. -/
def given (o : Options) : List Text :=
  let line := if o.line.isSome then [lineOption] else []
  let dump := if o.dump then [Switch.dump.text] else []
  if o.dumpFirst then dump ++ line else line ++ dump

/-- The options given so far, the pending one among them. One that is a line too many takes the
first one with it, and one that has no line does not count. -/
def givenAtLast (o : Options) : List Text :=
  match o.settle with
  | .ok settled => settled.given
  | .error (.repeated _) => { o with line := .none }.given
  | .error _ => o.given

/-- What the options ask for. -/
def request (o : Options) : Except UsageError Request :=
  match o.line, o.dump with
  | some _, true =>
    .error <|
      if o.dumpFirst then .conflict Switch.dump.text lineOption
      else .conflict lineOption Switch.dump.text
  | some line, false => .ok (.run line)
  | .none, true => .ok .dump
  | .none, false => .ok .interact

/-- The options after a switch, or the request that it makes at once. -/
def withSwitch (o : Options) (switch : Switch) : Except UsageError (Request ⊕ Options) := do
  let o ← o.settle
  match switch with
  | .help => return .inl .help
  | .version => return .inl .version
  | .dump =>
    if o.dump then throw (.repeated switch.text)
    else return .inr { o with dump := true, dumpFirst := o.line.isNone }

/-- The options after a long one, given without its dashes. -/
def withLong (o : Options) (argument : Text) : Except UsageError (Request ⊕ Options) :=
  let name := argument.takeWhile (· ≠ '=')
  match Switch.ofName? name, argument.dropWhile (· ≠ '=') with
  | .none, _ => .error (.unknownName name (Switch.similarTo? name) o.givenAtLast)
  | some switch, [] => o.withSwitch switch
  | some switch, _ :: value => .error (.unexpectedValue switch value o.given.isEmpty)

/-- The options after a short one, given by its letter and what stands behind it. -/
def withShort (o : Options) (letter : Char) (rest : Text) :
    Except UsageError (Request ⊕ Options) :=
  if letter = 'h' then o.withSwitch .help
  else if letter = 'V' then o.withSwitch .version
  else if letter = 'c' then do
    let o ← o.settle
    match rest with
    | [] => return .inr { o with pending := some .none }
    | '=' :: line => return .inr (← o.withLine line)
    | line => return .inr (← o.withLine line)
  else .error (.unexpected ['-', letter])

/-- The options after something that is no option: the line of an option that waits for it, or one
too many. -/
def withPlain (o : Options) (argument : Text) : Except UsageError (Request ⊕ Options) :=
  if o.pending = some .none then .ok (.inr { o with pending := some (some argument) })
  else .error (.unexpected argument)

/-- **The request that options make.** Two dashes end the options, and nothing may follow them. -/
def read (o : Options) : List Text → Except UsageError Request
  | [] => do (← o.settle).request
  | argument :: rest => do
    let next ←
      match argument, rest with
      | ['-', '-'], [] => .ok (.inr o)
      | ['-', '-'], extra :: _ => .error (.unexpected extra)
      | '-' :: '-' :: long, _ => o.withLong long
      | '-' :: letter :: short, _ => o.withShort letter short
      | plain, _ => o.withPlain plain
    match next with
    | .inl request => return request
    | .inr o => o.read rest

end Options

end FileShell
