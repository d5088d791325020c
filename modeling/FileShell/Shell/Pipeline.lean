import FileShell.Command.Arguments
import FileShell.Command.Registry

/-! # Pipelines

A line that has been read is a pipeline: a list of stages, each of which feeds its output to the
next. Everything about a line that can be checked without a look at the files is checked here, stage
by stage, so a line that is refused has done nothing (`Config.parse`). -/

namespace FileShell

/-- **A stage of a line**: a command, its arguments, and where its output goes. -/
structure Stage where
  command : Command
  arguments : Arguments
  redirection : Option Redirection
deriving DecidableEq, Repr

namespace Config

/-- **A stage, from its draft.** -/
def readStage (c : Config) (draft : Draft) : Except Failure Stage := do
  let command ← (c.lookUp draft.command).mapError .argument
  let arguments ← command.signature.read draft.command draft.words
  return ⟨command, arguments, draft.redirection⟩

/-- The redirection of a draft, which only the last one may have. -/
def checkRedirection (isLast : Bool) (draft : Draft) : Except LineError Unit :=
  match draft.redirection with
  | some r => if isLast then .ok () else .error (.earlyRedirection r.mode)
  | none => .ok ()

/-- **The stages of a line, from their texts.** -/
def readStages (c : Config) : List Text → Except Failure (List Stage)
  | [] => .ok []
  | text :: rest => do
    let draft ← (Draft.ofText text).mapError .line
    (checkRedirection rest.isEmpty draft).mapError .line
    let stage ← c.readStage draft
    let stages ← c.readStages rest
    return stage :: stages

/-- **The pipeline of a line.** -/
def parse (c : Config) (line : Text) : Except Failure (List Stage) := do
  c.readStages (← (stageTexts c.settings.quoteAwareBars line).mapError .line)

end Config

end FileShell
