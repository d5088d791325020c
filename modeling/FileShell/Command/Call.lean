import FileShell.Command.Arguments
import FileShell.Session

/-! # Calls

Right before a stage runs its operands are bound to what they name at that moment: single paths are
resolved, wildcards are expanded, and the conditions that need a look at the files are checked. The
result is a **call**, which is all that a command gets to see of its words. -/

namespace FileShell

/-- **An operand bound to what it names.** -/
inductive Bound
  /-- A word that the command interprets itself. -/
  | literal (word : Text)
  /-- One path. -/
  | path (path : Path)
  /-- The paths that a wildcard matched. -/
  | matched (paths : List Path)
deriving DecidableEq, Repr

/-- The paths that an operand is bound to. -/
def Bound.paths : Bound → List Path
  | .literal _ => []
  | .path p => [p]
  | .matched ps => ps

@[simp] theorem Bound.paths_literal (word : Text) : (Bound.literal word).paths = [] := rfl
@[simp] theorem Bound.paths_path (p : Path) : (Bound.path p).paths = [p] := rfl
@[simp] theorem Bound.paths_matched (ps : List Path) : (Bound.matched ps).paths = ps := rfl

/-- **A call of a command.** -/
structure Call where
  /-- The options that were given. -/
  options : List Text
  /-- The operands. -/
  operands : List Bound
  /-- The output of the stage before, if there is one. -/
  piped : Option Text
deriving DecidableEq, Repr

namespace Call

/-- Whether an option was given. -/
def has (c : Call) (option : Text) : Bool := c.options.contains option

/-- **All paths of a call**, operand by operand. -/
def paths (c : Call) : List Path := c.operands.flatMap Bound.paths

/-- The word at an index, if the operand there is a plain word. -/
def literal? (c : Call) (index : Nat) : Option Text :=
  match c.operands[index]? with
  | some (.literal word) => some word
  | _ => none

end Call

/-- **Where the last output goes** instead of the console. -/
structure Sink where
  /-- What happens to the file's content. -/
  mode : WriteMode
  /-- The file. -/
  path : Path
deriving DecidableEq, Repr

namespace Session

/-! ## Binding -/

/-- **One operand bound.** -/
def bindOperand (s : Session) (v : Volume) (scope : MatchScope) (command : Text)
    (requirement : Requirement) : Operand → Except Failure Bound
  | .literal word => .ok (.literal word)
  | .path word .single =>
    let path := s.resolve word
    if requirement = .directory ∧ v.stat path ≠ .directory then
      .error (.argument (.notDirectory command word))
    else .ok (.path path)
  | .path word .wildcard =>
    match s.expand v scope word with
    | .error e => .error (.path e)
    | .ok paths => .ok (.matched paths)

/-- The operands from the given index on, bound. -/
def bindOperands (s : Session) (v : Volume) (scope : MatchScope) (command : Text)
    (signature : Signature) (count : Nat) :
    (index : Nat) → List Operand → Except Failure (List Bound)
  | _, [] => .ok []
  | index, operand :: rest => do
    let bound ← s.bindOperand v scope command (signature.requirement index count) operand
    let others ← s.bindOperands v scope command signature count (index + 1) rest
    return bound :: others

/-- Whether sources need a directory to go to: more than one path, or a directory. -/
def needsDirectory (v : Volume) (sources : List Path) : Bool :=
  1 < sources.length || sources.any fun p => v.stat p = .directory

/-- **The rule for destinations.** A destination written with a slash at its end must be a
directory; so must the destination of more than one path, or of a directory. -/
def checkDestination (v : Volume) (command word : Text) (sources : List Bound)
    (destination : Bound) : Except ArgumentError Unit :=
  let isDirectory := destination.paths.head?.any fun p => v.stat p = .directory
  if word.getLast? = some '/' ∧ !isDirectory then .error (.notDirectory command word)
  else if needsDirectory v (sources.flatMap Bound.paths) && !isDirectory then
    .error (.ambiguousDestination command word)
  else .ok ()

/-- The rule for destinations, for the commands whose last operand is one. -/
def checkLayout (v : Volume) (command : Text) (signature : Signature) (operands : List Operand)
    (bound : List Bound) : Except ArgumentError Unit :=
  match signature.layout, operands.getLast?, bound.getLast? with
  | .sourcesThenDestination _ _, some operand, some destination =>
    checkDestination v command operand.word bound.dropLast destination
  | _, _, _ => .ok ()

/-- **A call, from arguments.** -/
def bind (s : Session) (v : Volume) (scope : MatchScope) (command : Text) (signature : Signature)
    (arguments : Arguments) (piped : Option Text) : Except Failure Call := do
  let operands := arguments.operands
  let bound ← s.bindOperands v scope command signature operands.length 0 operands
  (checkLayout v command signature operands bound).mapError .argument
  return ⟨arguments.options, bound, piped⟩

/-- The file that a redirection names. -/
def sink (s : Session) (r : Redirection) : Sink := ⟨r.mode, s.resolve r.target⟩

end Session

end FileShell
