import FileShell.Path.Word
import FileShell.Text.Blank
import FileShell.Text.Shown
import FileShell.Volume.Operation

/-! # From a line to drafts of its stages

A line is a chain of stages between bars; a stage is a command word, further words, and at the end
perhaps a redirection. Reading goes in two steps, since the first one fails on a line as a whole:

* **`stageTexts aware line`** — the texts of the stages. Bars inside quotes do not count, unless
  `aware` is off.
* **`Draft.ofText text`** — one stage: its redirection is cut off first, its words are read then
  (`wordsOf`). Blanks outside quotes end words. Quotes group the text between them as it stands and
  are dropped themselves; text next to a quoted run belongs to the same word. A word that ends up
  empty is no word. -/

namespace FileShell

/-! ## Redirections -/

/-- The operator that asks for a mode on a line. -/
def WriteMode.operator : WriteMode → Text
  | .truncate => ['>']
  | .append => ['>', '>']

/-- **A redirection**: the last stage's output goes to a file instead of the console. -/
structure Redirection where
  /-- What happens to the file's content. -/
  mode : WriteMode
  /-- The word that names the file. -/
  target : Text
deriving DecidableEq, Repr

/-! ## What can be wrong with a line -/

/-- **Why a line cannot be read.** -/
inductive LineError
  /-- The line holds nothing but blanks. -/
  | emptyLine
  /-- A stage holds nothing but blanks. -/
  | emptyStage
  /-- The quote is not closed. -/
  | openQuote (quote : Char)
  /-- A stage has more than one redirection. -/
  | manyRedirections
  /-- No word follows the operator. -/
  | noTarget (mode : WriteMode)
  /-- More than one word follows the operator, in this text. -/
  | manyTargets (mode : WriteMode) (text : Text)
  /-- The word after the operator does not name a single path. -/
  | badTarget (word : Text)
  /-- A stage has a redirection but no words. -/
  | noCommand
  /-- A stage before the last one has a redirection. -/
  | earlyRedirection (mode : WriteMode)
deriving DecidableEq, Repr

/-- The wording of an error in a line. -/
def LineError.message : LineError → Text
  | .emptyLine => "empty command".toList
  | .emptyStage => "empty command in pipeline".toList
  | .openQuote q => "unterminated quote (".toList ++ q :: [')']
  | .manyRedirections => "cannot redirect output to multiple files".toList
  | .noTarget mode => "missing file name after ".toList ++ mode.operator
  | .manyTargets mode text =>
    "ambiguous redirect after ".toList ++ mode.operator ++ ": ".toList ++ text
  | .badTarget word => shown word ++ " is not a valid file for redirection".toList
  | .noCommand => "missing command".toList
  | .earlyRedirection mode =>
    "output redirection (".toList ++ mode.operator ++
      ") is only allowed on the last stage".toList

/-! ## The texts of the stages -/

/-- **A text cut at its bars**, from a given quote state on. Without `aware` the quote state is
never anything but closed. -/
def cutAtBars (aware : Bool) : Option Char → Text → List Text
  | _, [] => [[]]
  | open?, c :: rest =>
    if c = '|' ∧ open? = none then [] :: cutAtBars aware none rest
    else (cutAtBars aware (if aware then quoteAfter open? c else none) rest).modifyHead (c :: ·)

@[simp] theorem cutAtBars_nil (aware : Bool) (open? : Option Char) :
    cutAtBars aware open? [] = [[]] := rfl

/-- There is always at least one part. -/
theorem cutAtBars_ne_nil (aware : Bool) (open? : Option Char) (t : Text) :
    cutAtBars aware open? t ≠ [] := by
  induction t generalizing open? with
  | nil => simp
  | cons c rest ih =>
    rw [cutAtBars]
    split
    · simp
    · simpa using ih _

/-- **The texts of a line's stages**, blanks trimmed off; none of them may be empty. -/
def stageTexts (aware : Bool) (line : Text) : Except LineError (List Text) :=
  let texts := (cutAtBars aware none line).map Text.trim
  if line.isAllBlank then .error .emptyLine
  else if texts.any List.isEmpty then .error .emptyStage
  else .ok texts

/-! ## The words of a text -/

/-- **The pieces of a text between unquoted blanks**, quotes dropped, from a given quote state on; a
quote that is still open at the end is an error. -/
def wordPieces : Option Char → Text → Except Char (List Text)
  | none, [] => .ok [[]]
  | some q, [] => .error q
  | none, c :: rest =>
    if isQuote c then wordPieces (some c) rest
    else if isBlank c then ([] :: ·) <$> wordPieces none rest
    else List.modifyHead (c :: ·) <$> wordPieces none rest
  | some q, c :: rest =>
    if c = q then wordPieces none rest
    else List.modifyHead (c :: ·) <$> wordPieces (some q) rest

/-- **The words of a text**, or the quote that it leaves open. -/
def wordsOf (t : Text) : Except Char (List Text) :=
  (·.filter fun piece => !piece.isEmpty) <$> wordPieces none t

/-- A text of no characters has no words. -/
@[simp] theorem wordsOf_nil : wordsOf [] = .ok [] := rfl

/-! ## One stage -/

/-- **A text cut at its redirection operators**, from a given quote state on: what comes before the
first one, then every operator with the text up to the next. Two signs in a row are one operator. -/
def cutAtOperators : Option Char → Text → Text × List (WriteMode × Text)
  | _, [] => ([], [])
  | none, '>' :: '>' :: rest =>
    let (text, cuts) := cutAtOperators none rest
    ([], (.append, text) :: cuts)
  | none, '>' :: rest =>
    let (text, cuts) := cutAtOperators none rest
    ([], (.truncate, text) :: cuts)
  | open?, c :: rest =>
    let (text, cuts) := cutAtOperators (quoteAfter open? c) rest
    (c :: text, cuts)

/-- **A stage as read from its text**, nothing known yet about its command. -/
structure Draft where
  /-- The first word. -/
  command : Text
  /-- The words that follow it. -/
  words : List Text
  /-- The redirection at its end, if any. -/
  redirection : Option Redirection
deriving DecidableEq, Repr

/-- The words of a text, an open quote being an error of the line. -/
def lineWords (t : Text) : Except LineError (List Text) := (wordsOf t).mapError .openQuote

/-- The redirection that an operator and the text after it make: one word that names a single
path. -/
def readRedirection (mode : WriteMode) (text : Text) : Except LineError Redirection := do
  match ← lineWords text with
  | [] => throw (.noTarget mode)
  | [target] =>
    if WordKind.ofWord? target = some .single then return { mode, target }
    else throw (.badTarget target)
  | _ => throw (.manyTargets mode text.trim)

/-- The redirection of a stage, from the operators found in it. -/
def redirectionOfCuts : List (WriteMode × Text) → Except LineError (Option Redirection)
  | [] => .ok none
  | [(mode, text)] => some <$> readRedirection mode text
  | _ => .error .manyRedirections

/-- **One stage, from its text.** -/
def Draft.ofText (text : Text) : Except LineError Draft := do
  let (before, cuts) := cutAtOperators none text
  let redirection ← redirectionOfCuts cuts
  match ← lineWords before with
  | [] => throw .noCommand
  | command :: words => return { command, words, redirection }

end FileShell
