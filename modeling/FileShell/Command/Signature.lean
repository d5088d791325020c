import FileShell.Text.Basic

/-! # Signatures of commands

A signature says which words may follow a command's name: how many operands, which options, and what
each operand must be. -/

namespace FileShell

/-- **What an operand must be.** -/
inductive Requirement
  /-- Any word; the command makes of it what it likes. -/
  | free
  /-- A word that names a single path. -/
  | single
  /-- A word that names a single path, or a wildcard. -/
  | singleOrWildcard
  /-- A word that names an existing directory. -/
  | directory
deriving DecidableEq, Repr

namespace Requirement

/-- Whether the operand must name a path at all. -/
def isPath (r : Requirement) : Bool := r != .free

/-- Whether the operand may be a wildcard. -/
def allowsWildcard (r : Requirement) : Bool := r == .singleOrWildcard

end Requirement

/-- **How requirements are laid out over the operands.** -/
inductive Layout
  /-- All operands have the same requirement. -/
  | uniform (requirement : Requirement)
  /-- The last operand is a destination, all others are sources. -/
  | sourcesThenDestination (sources destination : Requirement)
deriving DecidableEq, Repr

/-- **How many operands a command takes.** -/
structure Arity where
  /-- The fewest. -/
  min : Nat
  /-- The most, if there is a limit. -/
  max : Option Nat
deriving DecidableEq, Repr

/-- An arity in words. -/
def Arity.text (a : Arity) : Text :=
  match a.max with
  | none => "at least ".toList ++ Text.ofNat a.min
  | some max =>
    if max = a.min then "exactly ".toList ++ Text.ofNat max
    else Text.ofNat a.min ++ " to ".toList ++ Text.ofNat max

/-- **What may follow a command's name.** -/
structure Signature where
  /-- How many operands. -/
  arity : Arity
  /-- The options that the command knows. -/
  options : List Text
  /-- What the operands must be. -/
  layout : Layout
deriving DecidableEq, Repr

namespace Signature

/-- A signature without options whose operands have one requirement. -/
def uniform (min : Nat) (max : Option Nat) (requirement : Requirement) : Signature :=
  ⟨⟨min, max⟩, [], .uniform requirement⟩

/-- **The requirement of the operand at an index out of a number of operands.** Only the last one is
a destination. -/
def requirement (s : Signature) (index count : Nat) : Requirement :=
  match s.layout with
  | .uniform r => r
  | .sourcesThenDestination sources destination =>
    if index + 1 = count then destination else sources

@[simp] theorem requirement_uniform (min : Nat) (max : Option Nat) (r : Requirement)
    (index count : Nat) : (uniform min max r).requirement index count = r := rfl

end Signature

end FileShell
