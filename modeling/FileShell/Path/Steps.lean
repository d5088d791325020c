import FileShell.Path.Basic

/-! # The way that a path describes

A path is followed to an entry step by step (`Path.steps`). The steps keep what the parts of a path
leave out: every dot, and the slash at the end. Both lead nowhere else, but only from a
directory. -/

namespace FileShell

/-- **One step on the way to an entry.** -/
inductive Step
  /-- To the root. -/
  | root
  /-- A dot: to the same directory. -/
  | here
  /-- Two dots: to the directory above. -/
  | up
  /-- To the entry of a name. -/
  | name (name : Text)
  /-- The slash behind the last name: to the same directory. -/
  | slash
deriving DecidableEq, Repr

/-- The step that a piece between slashes stands for, if it stands for any. -/
def Step.ofPiece? (piece : Text) : Option Step :=
  if piece = [] then none
  else if piece = ['.'] then some .here
  else if piece = ['.', '.'] then some .up
  else some (.name piece)

/-- The step of a part. -/
def Part.step : Part → Step
  | .root => .root
  | .here => .here
  | .up => .up
  | .name n => .name n

namespace Path

/-- The step that the slash at the end of a path stands for, if the way ends in a name before it. -/
def lastSlash (p : Path) (way : List Step) : List Step :=
  match way.getLast? with
  | some (.name _) => if p.text.getLast? = some '/' then [.slash] else []
  | _ => []

/-- **The steps of a path.** -/
def steps (p : Path) : List Step :=
  let way := (p.text.pieces '/').filterMap Step.ofPiece?
  (if p.isAbsolute then [.root] else []) ++ way ++ p.lastSlash way

example : (Path.mk "/w/a.txt/".toList).steps =
    [.root, .name ['w'], .name "a.txt".toList, .slash] := by decide +kernel

example : (Path.mk "/w//./..".toList).steps = [.root, .name ['w'], .here, .up] := by
  decide +kernel

end Path

end FileShell
