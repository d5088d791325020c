import FileShell.Pager.Basic
import FileShell.Shell.State

/-! # The command `more`

Lines are shown page by page; between two pages the user is asked for a key. The loop ends with the
lines, with the user's wish, with the end of the input or with a failure, and every round takes one
line of the input. -/

namespace FileShell

/-- **The rounds of the pager** on the rest of the input, after the given events. -/
def Pager.rounds (p : Pager) (events : List Event) : List Input → Except Failure Unit × Console
  | [] =>
    if p.isDone then (.ok (), ⟨[], events⟩) else (.ok (), ⟨[], events ++ [.prompt p.prompt]⟩)
  | input :: rest =>
    if p.isDone then (.ok (), ⟨input :: rest, events⟩)
    else
      let asked := events ++ [.prompt p.prompt]
      match input with
      | .failure reason => (.error (.execution (.cannotRead "more".toList reason)), ⟨rest, asked⟩)
      | .line t =>
        match Key.ofInput? t with
        | none => (.error (.argument (.unsupportedKey t)), ⟨rest, asked⟩)
        | some key =>
          match p.apply key with
          | (none, _) => (.ok (), ⟨rest, asked⟩)
          | (some shown, next) => next.rounds (asked ++ shown.map .write) rest

/-- **A text's lines shown page by page** at a console. -/
def Pager.show (p : Pager) (c : Console) : Except Failure Unit × Console :=
  let (shown, next) := p.firstPage
  next.rounds (c.events ++ shown.map .write) c.unread

/-- The lines that `more` shows: those of its file, or of the output piped to it. -/
def linesToBrowse (call : Call) (v : Volume) : Except Failure (List Text) :=
  match call.paths.head? with
  | none => .ok (call.piped.getD []).lines
  | some path =>
    if v.stat path = .directory then
      .error (.execution (.unusable "more".toList path .isDirectory))
    else
      match v.readLines path with
      | .ok lines => .ok lines
      | .error e => .error (.execution (.cannot "more".toList .read path (.failed e)))

/-- **`more`.** Its output is empty, since it shows the lines itself. -/
def more (pageSize : Nat) (call : Call) : Shell Text := do
  let lines ← Shell.ofExcept (← Shell.look (linesToBrowse call))
  Shell.ofExcept (← Shell.converse (Pager.start lines pageSize).show)
  return []

end FileShell
