import FileShell.Command.Run
import FileShell.Shell.Pipeline

/-! # Running lines

The stages of a pipeline run in order. Each is bound to what its words name at the moment when it is
reached, so a change of directory counts for all later stages. The last output goes to the console
or to a file (`deliver`). The first failure ends the line. -/

namespace FileShell

/-- **The last output delivered.** On the console an empty output is not shown at all, and one
newline at its end is left out; a file that is appended to gets a newline first. -/
def deliver (output : Text) : Option Sink → Shell Unit
  | none => if output.isEmpty then return () else Shell.write output.dropFinalNewline
  | some sink => do
    let text := if sink.mode = .append then '\n' :: output else output
    match ← Shell.attempt (·.write sink.path text sink.mode) with
    | .ok _ => return ()
    | .error e => throw (.execution (.cannotWrite sink.path e))

/-- A stage bound to what its words name at this moment. -/
def bindStage (env : Environment) (stage : Stage) (piped : Option Text) : Shell Call := fun s =>
  Shell.ofExcept
    (s.session.bind s.volume (env.config.matchScope stage.command.name) stage.command.name
      stage.command.signature stage.arguments piped) s

/-- The record of a stage that begins to run. -/
def stageRecord (number total : Nat) (command : Command) : Text :=
  "stage ".toList ++ Text.ofNat number ++ '/' :: Text.ofNat total ++ ": ".toList ++ command.name

/-- **The stages from the given number on**, out of a total, run on the output of the stage
before. -/
def runStages (env : Environment) (total : Nat) :
    (number : Nat) → Option Text → List Stage → Shell Unit
  | _, _, [] => return ()
  | number, piped, stage :: rest => do
    let call ← bindStage env stage piped
    let sink ← fun s => .ok (stage.redirection.map s.session.sink) s
    Shell.record .info (stageRecord number total stage.command)
    let output ← stage.command.run env call
    match rest with
    | [] => deliver output sink
    | next :: later => runStages env total (number + 1) (some output) (next :: later)

/-- **A pipeline run.** -/
def execute (env : Environment) (stages : List Stage) : Shell Unit :=
  runStages env stages.length 1 none stages

/-- The record of a line that is read. -/
def lineRecord (line : Text) : Text := "line: ".toList ++ onOneLine line

/-- **A line read and run.** The line is recorded first, and its failure at the end. -/
def runLine (env : Environment) (line : Text) : Shell Unit := fun s =>
  let action : Shell Unit := do
    Shell.record .info (lineRecord line)
    execute env (← Shell.ofExcept (env.config.parse line))
  match action s with
  | .ok _ s' => .ok () s'
  | .error .halt s' => .error .halt s'
  | .error failure s' =>
    .error failure (s'.logged .warning (failure.label ++ " error: ".toList ++ failure.message))

end FileShell
