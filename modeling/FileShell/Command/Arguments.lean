import FileShell.Failure

/-! # Words as arguments

The words after a command's name are told apart by its signature, without a look at any file
(`Signature.read`): the options first, wherever they stand, then the number of the remaining words,
then each of these against the requirement of its position. -/

namespace FileShell

/-- **An operand as it was written.** -/
inductive Operand
  /-- A word that the command interprets itself. -/
  | literal (word : Text)
  /-- A word that names a path or paths. -/
  | path (word : Text) (kind : WordKind)
deriving DecidableEq, Repr

/-- The word that an operand was written as. -/
def Operand.word : Operand → Text
  | .literal word => word
  | .path word _ => word

/-- **The words after a command's name, told apart.** -/
structure Arguments where
  /-- The options, in the order in which they stand. -/
  options : List Text
  /-- The operands, in the order in which they stand. -/
  operands : List Operand
deriving DecidableEq, Repr

namespace Signature

/-- Whether a word looks like an option, for a command that has options at all. -/
def looksLikeOption (s : Signature) (word : Text) : Bool :=
  !s.options.isEmpty && 1 < word.length && word.head? = some '-'

/-- **The words that are options and those that are not**, each in order. A word that only looks
like an option is an error. -/
def partition (s : Signature) (command : Text) :
    List Text → Except ArgumentError (List Text × List Text)
  | [] => .ok ([], [])
  | word :: rest =>
    if s.options.contains word then do
      let (options, operands) ← s.partition command rest
      return (word :: options, operands)
    else if s.looksLikeOption word then .error (.unknownOption command word)
    else do
      let (options, operands) ← s.partition command rest
      return (options, word :: operands)

/-- Whether a number of operands is one that the command takes. -/
def checkCount (s : Signature) (command : Text) (count : Nat) : Except ArgumentError Unit :=
  if count < s.arity.min then .error (.tooFew command s.arity count)
  else if s.arity.max.any (· < count) then .error (.tooMany command s.arity count)
  else .ok ()

/-- **One operand**, from its word and its position. -/
def readOperand (s : Signature) (command : Text) (index count : Nat) (word : Text) :
    Except Failure Operand :=
  let requirement := s.requirement index count
  if !requirement.isPath then .ok (.literal word)
  else
    match WordKind.ofWord? word with
    | none => .error (.path (.invalid word))
    | some .single => .ok (.path word .single)
    | some .wildcard =>
      if requirement.allowsWildcard then .ok (.path word .wildcard)
      else .error (.argument (.notSingle command word))

/-- The operands from the given index on. -/
def readOperands (s : Signature) (command : Text) (count : Nat) :
    (index : Nat) → List Text → Except Failure (List Operand)
  | _, [] => .ok []
  | index, word :: rest => do
    let operand ← s.readOperand command index count word
    let operands ← s.readOperands command count (index + 1) rest
    return operand :: operands

/-- **The words after a command's name, told apart by its signature.** -/
def read (s : Signature) (command : Text) (words : List Text) : Except Failure Arguments := do
  let (options, operands) ← (s.partition command words).mapError .argument
  (s.checkCount command operands.length).mapError .argument
  return ⟨options, ← s.readOperands command operands.length 0 operands⟩

end Signature

end FileShell
