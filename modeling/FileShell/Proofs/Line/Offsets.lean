import Mathlib.Data.List.DropRight
import FileShell.Proofs.Line.Defects
import FileShell.Proofs.Path.WordKinds
import FileShell.Proofs.Text.Slices

/-! # Reading a line by offsets

The scanners of a line hand texts on to each other. A line can also be read without copying
anything: an operator is found at an offset into the bytes of its stage, and what stands before it
and behind it are slices; the first word of a stage is taken by its index; quotes and directories are
cut off a word by offsets, too. Each of these steps can go out of range, and is written below as a
result that can be missing. It never is, and what is read in this way is what the scanners read.

* **`operatorsOf`**, **`stageBySlices?`** — the operators of a stage by their offsets, and a stage
  that is read by slices.
* **`unquotedBySlices?`**, **`splitBySlices?`** — a word without its quotes, and the directory of a
  path, by slices.
* **`Config.parseInRange?`** — a line that is read in this way; **`parsing_in_range`** says that no
  index on the way is out of range. -/

namespace FileShell

/-! ## Operators at offsets -/

/-- **An operator in a text**, and the offset of its first byte. -/
structure OperatorAt where
  offset : Nat
  mode : WriteMode
deriving DecidableEq, Repr

/-- The offset behind an operator. -/
def OperatorAt.stop (op : OperatorAt) : Nat := op.offset + op.mode.operator.byteSize

/-- The operators of the rest of a text, which begins at the given offset, after a quote state. -/
def operatorsFrom : Option Char → Nat → Text → List OperatorAt
  | _, _, [] => []
  | none, offset, '>' :: '>' :: rest => ⟨offset, .append⟩ :: operatorsFrom none (offset + 2) rest
  | none, offset, '>' :: rest => ⟨offset, .truncate⟩ :: operatorsFrom none (offset + 1) rest
  | open?, offset, c :: rest => operatorsFrom (quoteAfter open? c) (offset + c.utf8Size) rest

/-- **The operators of a text.** -/
def operatorsOf (t : Text) : List OperatorAt := operatorsFrom none 0 t

/-- What was cut at operators, put together again. -/
def writtenCuts (cuts : List (WriteMode × Text)) : Text :=
  cuts.flatMap fun cut => cut.1.operator ++ cut.2

@[simp] theorem writtenCuts_nil : writtenCuts [] = [] := rfl

@[simp] theorem writtenCuts_cons (mode : WriteMode) (t : Text) (cuts : List (WriteMode × Text)) :
    writtenCuts ((mode, t) :: cuts) = mode.operator ++ (t ++ writtenCuts cuts) := by
  simp [writtenCuts]

/-- The operators of what was cut, if that begins at the given offset. -/
def offsetsOf : Nat → List (WriteMode × Text) → List OperatorAt
  | _, [] => []
  | offset, (mode, t) :: cuts =>
    ⟨offset, mode⟩ :: offsetsOf (offset + (mode.operator.byteSize + t.byteSize)) cuts

theorem byteSize_operator_truncate : WriteMode.truncate.operator.byteSize = 1 := by decide

theorem byteSize_operator_append : WriteMode.append.operator.byteSize = 2 := by decide

/-- An operator takes up a byte at least. -/
theorem OperatorAt.offset_lt_stop (op : OperatorAt) : op.offset < op.stop := by
  obtain ⟨offset, mode⟩ := op
  cases mode with
  | truncate =>
    rw [stop, byteSize_operator_truncate]
    omega
  | append =>
    rw [stop, byteSize_operator_append]
    omega

/-- A character that is no operator belongs to the text before the first one. -/
theorem cutAtOperators_cons {open? : Option Char} {c : Char} {t : Text}
    (h : open? = none → c ≠ '>') :
    cutAtOperators open? (c :: t) = (c :: (cutAtOperators (quoteAfter open? c) t).1,
      (cutAtOperators (quoteAfter open? c) t).2) := by
  rw [cutAtOperators]
  · rintro _ hopen hc -
    exact h hopen hc
  · exact h

/-- **Nothing is lost where a text is cut at its operators.** -/
theorem append_writtenCuts (open? : Option Char) (t : Text) :
    (cutAtOperators open? t).1 ++ writtenCuts (cutAtOperators open? t).2 = t := by
  induction open?, t using cutAtOperators.induct with
  | case1 open? => rw [cutAtOperators]; rfl
  | case2 t text cuts hcut ih =>
    rw [hcut] at ih
    rw [cutAtOperators, hcut, writtenCuts_cons, ih]
    rfl
  | case3 t ht text cuts hcut ih =>
    rw [hcut] at ih
    rw [cutAtOperators, hcut, writtenCuts_cons, ih]
    · rfl
    · exact ht
  | case4 open? c t h₂ h₁ text cuts hcut ih =>
    rw [cutAtOperators_cons h₁]
    simpa using ih

/-- **The operators of a text are those that it is cut at**, each of them at the offset where what
stands before it ends. -/
theorem operatorsFrom_eq (open? : Option Char) (offset : Nat) (t : Text) :
    operatorsFrom open? offset t =
      offsetsOf (offset + (cutAtOperators open? t).1.byteSize) (cutAtOperators open? t).2 := by
  induction open?, t using cutAtOperators.induct generalizing offset with
  | case1 open? => rw [operatorsFrom, cutAtOperators]; rfl
  | case2 t text cuts hcut ih =>
    rw [operatorsFrom, cutAtOperators, ih, hcut, offsetsOf, byteSize_operator_append,
      ← Nat.add_assoc]
    rfl
  | case3 t ht text cuts hcut ih =>
    rw [operatorsFrom, cutAtOperators, ih, hcut, offsetsOf, byteSize_operator_truncate,
      ← Nat.add_assoc]
    · rfl
    · exact ht
    · exact ht
  | case4 open? c t h₂ h₁ text cuts hcut ih =>
    -- the character lengthens what stands before the first operator by its own bytes
    rw [operatorsFrom, cutAtOperators_cons h₁, ih, Text.byteSize_cons, Nat.add_assoc]
    · exact h₂
    · exact h₁

/-- Each operator stands in what was cut, behind a text of as many bytes as its offset says. -/
theorem exists_of_mem_offsetsOf {op : OperatorAt} {offset : Nat} {cuts : List (WriteMode × Text)}
    (h : op ∈ offsetsOf offset cuts) :
    ∃ before behind, writtenCuts cuts = before ++ (op.mode.operator ++ behind) ∧
      op.offset = offset + before.byteSize := by
  induction cuts generalizing offset with
  | nil => cases h
  | cons cut cuts ih =>
    obtain ⟨mode, t⟩ := cut
    rcases List.mem_cons.1 h with rfl | h
    · exact ⟨[], t ++ writtenCuts cuts, by simp, rfl⟩
    · obtain ⟨before, behind, hwritten, hoffset⟩ := ih h
      refine ⟨mode.operator ++ (t ++ before), behind, by simp [hwritten], ?_⟩
      simp only [hoffset, Text.byteSize_append, Nat.add_assoc]

/-- No operator begins before the one in front of it ends. -/
theorem pairwise_offsetsOf (offset : Nat) (cuts : List (WriteMode × Text)) :
    (offsetsOf offset cuts).Pairwise fun a b => a.stop ≤ b.offset := by
  induction cuts generalizing offset with
  | nil => exact .nil
  | cons cut cuts ih =>
    obtain ⟨mode, t⟩ := cut
    refine .cons (fun op hop => ?_) (ih _)
    obtain ⟨before, behind, -, hoffset⟩ := exists_of_mem_offsetsOf hop
    simp only [OperatorAt.stop]
    omega

/-- **Where an operator is found, it stands.** -/
theorem exists_of_mem_operatorsOf {op : OperatorAt} {t : Text} (h : op ∈ operatorsOf t) :
    ∃ before behind, t = before ++ (op.mode.operator ++ behind) ∧ op.offset = before.byteSize := by
  rw [operatorsOf, operatorsFrom_eq, Nat.zero_add] at h
  obtain ⟨before, behind, hwritten, hoffset⟩ := exists_of_mem_offsetsOf h
  refine ⟨(cutAtOperators none t).1 ++ before, behind, ?_, ?_⟩
  · rw [List.append_assoc, ← hwritten, append_writtenCuts]
  · rw [hoffset, Text.byteSize_append]

/-- **Operators that are in range of a text.** -/
structure OperatorsInRange (text : Text) (ops : List OperatorAt) : Prop where
  /-- Each of them begins on a boundary. -/
  boundary : ∀ op ∈ ops, text.IsBoundary op.offset
  /-- From there on the text begins with the operator. -/
  stands : ∀ op ∈ ops, ∃ rest, text.slice? op.offset text.byteSize = some (op.mode.operator ++ rest)
  /-- No two of them overlap. -/
  apart : ops.Pairwise fun a b => a.stop ≤ b.offset
  /-- Each of them begins behind the one before. -/
  increasing : ops.Pairwise fun a b => a.offset < b.offset
  /-- The text can be cut before each of them and behind it. -/
  cut : ∀ op ∈ ops, (∃ before, text.slice? 0 op.offset = some before) ∧
    ∃ behind, text.slice? op.stop text.byteSize = some behind

/-- **All operators of a text are in its range.** -/
theorem operatorsInRange (text : Text) : OperatorsInRange text (operatorsOf text) := by
  have hapart : (operatorsOf text).Pairwise fun a b => a.stop ≤ b.offset := by
    rw [operatorsOf, operatorsFrom_eq]
    exact pairwise_offsetsOf _ _
  refine ⟨fun op hop => ?_, fun op hop => ?_, hapart, ?_, fun op hop => ?_⟩
  · obtain ⟨before, behind, rfl, hoffset⟩ := exists_of_mem_operatorsOf hop
    rw [hoffset]
    exact Text.isBoundary_append _ _
  · obtain ⟨before, behind, rfl, hoffset⟩ := exists_of_mem_operatorsOf hop
    exact ⟨behind, Text.slice?_behind hoffset⟩
  · exact hapart.imp fun hle => Nat.lt_of_lt_of_le (OperatorAt.offset_lt_stop _) hle
  · obtain ⟨before, behind, rfl, hoffset⟩ := exists_of_mem_operatorsOf hop
    have hstop : op.stop = (before ++ op.mode.operator).byteSize := by
      rw [OperatorAt.stop, hoffset, Text.byteSize_append]
    refine ⟨⟨before, Text.slice?_before hoffset⟩, behind, ?_⟩
    rw [← List.append_assoc]
    exact Text.slice?_behind hstop

/-! ## A stage by slices -/

/-- The words of a stage, of which there has to be one, and the redirection that goes with them. -/
def stageWords (t : Text) (redirection : Option Redirection) :
    Except LineError (List Text × Option Redirection) := do
  let words ← lineWords t
  if words.isEmpty then throw .noCommand
  return (words, redirection)

/-- **A stage, by slices of its text.** -/
def stageBySlices? (text : Text) : Option (Except LineError (List Text × Option Redirection)) :=
  match operatorsOf text with
  | [] => some (stageWords text none)
  | [op] => do
    let behind ← text.slice? op.stop text.byteSize
    let before ← text.slice? 0 op.offset
    return readRedirection op.mode behind >>= fun r => stageWords before (some r)
  | _ => some (.error .manyRedirections)

/-- All words of a draft, and its redirection. -/
def Draft.parts (d : Draft) : List Text × Option Redirection :=
  (d.command :: d.words, d.redirection)

/-- The first word of a stage is its command. -/
theorem stageWords_eq (t : Text) (redirection : Option Redirection) :
    stageWords t redirection = Draft.parts <$> (lineWords t >>= fun words =>
      match words with
      | [] => throw .noCommand
      | command :: words => return { command, words, redirection }) := by
  rw [stageWords]
  rcases lineWords t with e | _ | ⟨command, words⟩
  · rfl
  · rfl
  · rfl

/-- **No slice of a stage is out of range**, and the stage that they make up is the one that the
scanners read. -/
theorem stageBySlices?_eq (text : Text) :
    stageBySlices? text = some (Draft.parts <$> Draft.ofText text) := by
  have hops := operatorsFrom_eq none 0 text
  have hwritten := append_writtenCuts none text
  rw [stageBySlices?, operatorsOf, hops, Draft.ofText]
  generalize cutAtOperators none text = cut at hwritten ⊢
  rcases cut with ⟨before, _ | ⟨⟨mode, behind⟩, _ | ⟨second, cuts⟩⟩⟩
  · -- no operator: the words are those of the whole text
    obtain rfl : before = text := by simpa using hwritten
    exact congrArg some (stageWords_eq before none)
  · -- one operator, between the words and the target
    obtain rfl : before ++ (mode.operator ++ behind) = text := by simpa using hwritten
    have hbefore : Text.slice? (before ++ (mode.operator ++ behind)) 0 before.byteSize =
        some before := Text.slice?_before rfl
    have hbehind : Text.slice? (before ++ (mode.operator ++ behind))
        (before.byteSize + mode.operator.byteSize)
        (Text.byteSize (before ++ (mode.operator ++ behind))) = some behind := by
      rw [← List.append_assoc, ← Text.byteSize_append]
      exact Text.slice?_behind rfl
    simp only [offsetsOf, OperatorAt.stop, Nat.zero_add, hbefore, hbehind, stageWords_eq,
      redirectionOfCuts, Option.bind_eq_bind, Option.bind_some]
    rcases readRedirection mode behind with e | r
    · rfl
    · rfl
  · -- more than one
    rfl

/-- A stage that is read has a word. -/
theorem length_pos_of_stageBySlices? {text : Text} {words : List Text}
    {redirection : Option Redirection}
    (h : stageBySlices? text = some (.ok (words, redirection))) : 1 ≤ words.length := by
  rw [stageBySlices?_eq, Option.some.injEq, Outcome.map_eq_ok] at h
  obtain ⟨d, -, hparts⟩ := h
  obtain ⟨rfl, -⟩ := Prod.mk.inj hparts
  exact Nat.le_add_left _ _

/-! ## Words and paths by slices -/

/-- Whether a byte is one of the two quotes. -/
def isQuoteByte (b : UInt8) : Bool := b = 0x27 || b = 0x22

/-- **A word without one pair of equal quotes around it**, by its first and its last byte. -/
def unquotedBySlices? (word : Text) : Option Text :=
  if 2 ≤ word.byteSize then do
    let first ← word.bytes[0]?
    let last ← word.bytes[word.byteSize - 1]?
    if isQuoteByte first ∧ first = last then word.slice? 1 (word.byteSize - 1) else return word
  else some word

/-- The offset of the last slash of the rest of a text, which begins at the given offset. -/
def lastSlashFrom (offset : Nat) : Text → Option Nat
  | [] => none
  | c :: rest =>
    (lastSlashFrom (offset + c.utf8Size) rest).or (if c = '/' then some offset else none)

/-- **A text cut after its last slash**, by the offset of the slash. -/
def splitBySlices? (path : Text) : Option (Text × Text) :=
  match lastSlashFrom 0 path with
  | none => some ([], path)
  | some offset => do
    let directory ← path.slice? 0 (offset + 1)
    let name ← path.slice? (offset + 1) path.byteSize
    return (directory, name)

/-- A quote is one byte. -/
theorem utf8EncodeChar_of_isQuote {c : Char} (h : isQuote c = true) :
    String.utf8EncodeChar c = [UInt8.ofNat c.toNat] ∧ isQuoteByte (UInt8.ofNat c.toNat) = true := by
  obtain rfl | rfl : c = '\'' ∨ c = '"' := by simpa [isQuote] using h
  · exact ⟨rfl, rfl⟩
  · exact ⟨rfl, rfl⟩

/-- **The quotes at the ends of a word can be told by a byte of each end.** -/
theorem isQuoteByte_and_eq_iff {c d : Char} {first last : UInt8}
    (hfirst : first ∈ String.utf8EncodeChar c) (hlast : last ∈ String.utf8EncodeChar d) :
    isQuoteByte first = true ∧ first = last ↔ isQuote c = true ∧ d = c := by
  constructor
  · -- a byte of a quote belongs to no other character
    rintro ⟨hquote, rfl⟩
    have hcases : first = 0x27 ∨ first = 0x22 := by simpa [isQuoteByte] using hquote
    have hsmall : first.toNat < 128 := by
      rcases hcases with rfl | rfl
      · decide
      · decide
    have hc := Text.toNat_of_mem_utf8EncodeChar hsmall hfirst
    have hd := Text.toNat_of_mem_utf8EncodeChar hsmall hlast
    refine ⟨?_, Char.toNat_inj.1 (hd.trans hc.symm)⟩
    rcases hcases with rfl | rfl
    · obtain rfl : c = '\'' := Char.toNat_inj.1 hc
      rfl
    · obtain rfl : c = '"' := Char.toNat_inj.1 hc
      rfl
  · rintro ⟨hquote, rfl⟩
    obtain ⟨hbytes, hbyte⟩ := utf8EncodeChar_of_isQuote hquote
    rw [hbytes, List.mem_singleton] at hfirst hlast
    exact ⟨hfirst ▸ hbyte, hfirst.trans hlast.symm⟩

/-- **No slice of a word is out of range** where its quotes are cut off. -/
theorem unquotedBySlices?_eq (word : Text) : unquotedBySlices? word = some (unquoted word) := by
  rcases word with _ | ⟨c, rest⟩
  · rfl
  obtain ⟨first, hfirst, hfirstByte⟩ := Text.exists_first_byte c rest
  rcases List.eq_nil_or_concat rest with rfl | ⟨inner, d, rfl⟩
  · -- a word of one character, which has more than one byte if it is no quote
    obtain ⟨last, hlast, hlastByte⟩ := Text.exists_last_byte [] c
    rw [List.nil_append] at hlastByte
    have hbare : ¬(2 ≤ Text.byteSize [c] ∧ isQuoteByte first = true ∧ first = last) := by
      rintro ⟨hsize, hquote⟩
      obtain ⟨hbytes, -⟩ :=
        utf8EncodeChar_of_isQuote ((isQuoteByte_and_eq_iff hfirst hlast).1 hquote).1
      rw [Text.byteSize_eq_length, List.flatMap_singleton, hbytes] at hsize
      exact absurd hsize (by simp)
    rw [unquotedBySlices?, hfirstByte, hlastByte, unquoted_singleton]
    split
    · next hsize =>
      simp only [Option.bind_eq_bind, Option.bind_some, if_neg fun h => hbare ⟨hsize, h⟩]
      rfl
    · rfl
  · -- a word with two ends
    rw [List.concat_eq_append] at hfirstByte ⊢
    obtain ⟨last, hlast, hlastByte⟩ := Text.exists_last_byte (c :: inner) d
    rw [List.cons_append] at hlastByte
    have hends := isQuoteByte_and_eq_iff hfirst hlast
    have hsize : 2 ≤ Text.byteSize (c :: (inner ++ [d])) := by
      have hc := c.utf8Size_pos
      have hd := d.utf8Size_pos
      simp only [Text.byteSize_cons, Text.byteSize_append, Text.byteSize_nil]
      omega
    simp only [unquotedBySlices?, if_pos hsize, hfirstByte, hlastByte, Option.bind_eq_bind,
      Option.bind_some, unquoted, List.getLast?_concat, List.dropLast_concat, Option.some.injEq]
    by_cases hquotes : isQuote c = true ∧ d = c
    · -- both quotes take up one byte
      have hone : Text.byteSize [c] = 1 := by
        obtain ⟨hbytes, -⟩ := utf8EncodeChar_of_isQuote hquotes.1
        rw [Text.byteSize_eq_length, List.flatMap_singleton, hbytes]
        rfl
      have hinner : Text.slice? ([c] ++ (inner ++ [d])) 1
          (Text.byteSize ([c] ++ (inner ++ [d])) - 1) = some inner := by
        refine Text.slice?_append hone.symm ?_
        rw [Text.byteSize_append, Text.byteSize_append, hquotes.2, hone]
        omega
      rw [List.singleton_append] at hinner
      rw [if_pos (hends.2 hquotes), if_pos hquotes, hinner]
    · rw [if_neg fun h => hquotes (hends.1 h), if_neg hquotes]
      rfl

/-- A text without a slash has no last one. -/
theorem lastSlashFrom_of_not_mem {t : Text} (offset : Nat) (h : '/' ∉ t) :
    lastSlashFrom offset t = none := by
  induction t generalizing offset with
  | nil => rfl
  | cons c t ih =>
    obtain ⟨hc, ht⟩ : '/' ≠ c ∧ '/' ∉ t := by simpa using h
    rw [lastSlashFrom, ih _ ht, if_neg hc.symm]
    rfl

/-- The last slash of a text stands before a name without a slash. -/
theorem lastSlashFrom_append {before name : Text} (offset : Nat) (h : '/' ∉ name) :
    lastSlashFrom offset (before ++ '/' :: name) = some (offset + before.byteSize) := by
  induction before generalizing offset with
  | nil =>
    rw [List.nil_append, lastSlashFrom, lastSlashFrom_of_not_mem _ h, if_pos rfl]
    rfl
  | cons c before ih =>
    rw [List.cons_append, lastSlashFrom, ih, Text.byteSize_cons, Nat.add_assoc]
    rfl

/-- **No slice of a path is out of range** where it is cut after its last slash. -/
theorem splitBySlices?_eq (path : Text) : splitBySlices? path = some (splitAtLastSlash path) := by
  rcases splitAtLastSlash_cases path with ⟨hnone, hsplit⟩ | ⟨before, name, rfl, hname, hsplit⟩
  · rw [splitBySlices?, lastSlashFrom_of_not_mem _ hnone, hsplit]
  · have hslash : before.byteSize + 1 = Text.byteSize (before ++ ['/']) := by
      rw [Text.byteSize_append]
      rfl
    have hparts : before ++ '/' :: name = before ++ ['/'] ++ name := by simp
    rw [splitBySlices?, lastSlashFrom_append _ hname, hsplit, Nat.zero_add, hparts]
    simp only [Text.slice?_before hslash, Text.slice?_behind hslash, Option.bind_eq_bind,
      Option.bind_some]
    rfl

/-! ## A line by indices -/

namespace Config

/-- **A stage of a line, by indices**: its command is the first word, and the slice behind that
holds the others. -/
def readTextInRange? (c : Config) (isLast : Bool) (text : Text) :
    Option (Except Failure Stage) := do
  match ← stageBySlices? text with
  | .error e => return .error (.line e)
  | .ok (words, redirection) =>
    let command ← words[0]?
    let others ← if 1 ≤ words.length then some (words.drop 1) else none
    let draft : Draft := ⟨command, others, redirection⟩
    return do
      (checkRedirection isLast draft).mapError .line
      c.readStage draft

/-- **The stages of a line**, from the index of the first one on, when that of the last one is
known. -/
def readStagesInRange? (c : Config) (last : Nat) :
    Nat → List Text → Option (Except Failure (List Stage))
  | _, [] => some (.ok [])
  | index, text :: rest => do
    match ← c.readTextInRange? (index = last) text with
    | .error e => return .error e
    | .ok stage => return (stage :: ·) <$> (← c.readStagesInRange? last (index + 1) rest)

/-- **A line that is read by indices and slices**, any of which can be out of range. -/
def parseInRange? (c : Config) (line : Text) : Option (Except Failure (List Stage)) :=
  match stageTexts c.settings.quoteAwareBars line with
  | .error e => some (.error (.line e))
  | .ok texts => do
    let last ← if 1 ≤ texts.length then some (texts.length - 1) else none
    c.readStagesInRange? last 0 texts

/-- Every stage that is read has a first word. -/
theorem readTextInRange?_eq (c : Config) (isLast : Bool) (text : Text) :
    c.readTextInRange? isLast text = some (c.readText isLast text) := by
  rw [readTextInRange?, stageBySlices?_eq, readText]
  rcases Draft.ofText text with e | draft
  · rfl
  · have hlen : 1 ≤ (draft.command :: draft.words).length := Nat.le_add_left _ _
    simp only [Outcome.map_ok, Draft.parts, Option.bind_eq_bind, Option.bind_some, if_pos hlen]
    rfl

/-- The last stage is the one behind which there is none. -/
theorem readStagesInRange?_eq (c : Config) {last index : Nat} {texts : List Text}
    (h : last + 1 = index + texts.length) :
    c.readStagesInRange? last index texts = some (c.readStages texts) := by
  induction texts generalizing index with
  | nil => rfl
  | cons text rest ih =>
    rw [List.length_cons] at h
    -- this stage is the last one if and only if nothing follows it
    have hlast : decide (index = last) = rest.isEmpty := by
      rw [Bool.eq_iff_iff, decide_eq_true_iff, List.isEmpty_iff_length_eq_zero]
      omega
    rw [readStagesInRange?, readTextInRange?_eq, hlast, ih (by omega), readStages_cons]
    rcases c.readText rest.isEmpty text with e | stage
    · rfl
    · rfl

end Config

/-- Blanks are trimmed off once. -/
theorem Text.trim_trim (t : Text) : t.trim.trim = t.trim := by
  -- what comes first in a trimmed text came first when the blanks before it were gone
  have hstart : t.trim.trimStart = t.trim := by
    obtain ⟨blanks, hsplit, -⟩ := exists_trimEnd_append t.trimStart
    have hhead := List.head?_dropWhile_not isBlank t
    change t.trimStart = t.trim ++ blanks at hsplit
    cases htrim : t.trim with
    | nil => rfl
    | cons c rest =>
      rw [← Text.trimStart, hsplit, htrim] at hhead
      exact List.dropWhile_cons_of_neg (Bool.not_eq_true _ ▸ hhead)
  have hend : t.trim.trimEnd = t.trim := List.rdropWhile_idempotent isBlank t.trimStart
  rw [trim, hstart, hend]

/-- **A line has a stage**, and each of its texts is trimmed and not empty. -/
theorem stageTexts_in_range {aware : Bool} {line : Text} {texts : List Text}
    (h : stageTexts aware line = .ok texts) :
    1 ≤ texts.length ∧ ∀ text ∈ texts, text.trim = text ∧ text ≠ [] := by
  obtain ⟨rfl, hne⟩ := stageTexts_eq_ok.1 h
  refine ⟨?_, fun text htext => ⟨?_, fun hnil => hne (hnil ▸ htext)⟩⟩
  · rw [List.length_map]
    exact List.length_pos_iff.2 (cutAtBars_ne_nil _ _ _)
  · obtain ⟨part, -, rfl⟩ := List.mem_map.1 htext
    exact part.trim_trim

/-- **Reading a line by indices and slices is reading it.** -/
theorem parseInRange?_eq (c : Config) (line : Text) :
    c.parseInRange? line = some (c.parse line) := by
  rw [Config.parseInRange?, Config.parse]
  rcases htexts : stageTexts c.settings.quoteAwareBars line with e | texts
  · rfl
  · have hlen := (stageTexts_in_range htexts).1
    simp only [if_pos hlen, Option.bind_eq_bind, Option.bind_some]
    exact c.readStagesInRange?_eq (by omega)

/-! ## Everything in range -/

/-- **Nothing is out of range when a line is read.**

* A line that is read by indices and slices gives what the scanners give. It has a stage, whether or
  not bars in quotes count, and the text of each stage is trimmed and not empty.
* Whatever the text of a stage may be, it can be read by slices, and has a word if it is read at
  all. Its operators stand at boundaries of characters, one behind the other and without an overlap,
  and the text can be cut before and behind each of them.
* The quotes of every word and the directory of every path can be cut off by slices. -/
theorem parsing_in_range (c : Config) (line : Text) :
    c.parseInRange? line = some (c.parse line) ∧
      (∀ aware texts, stageTexts aware line = .ok texts →
        1 ≤ texts.length ∧ ∀ text ∈ texts, text.trim = text ∧ text ≠ []) ∧
      ∀ text : Text,
        stageBySlices? text = some (Draft.parts <$> Draft.ofText text) ∧
        (∀ words redirection, stageBySlices? text = some (.ok (words, redirection)) →
          1 ≤ words.length) ∧
        OperatorsInRange text (operatorsOf text) ∧
        unquotedBySlices? text = some (unquoted text) ∧
        splitBySlices? text = some (splitAtLastSlash text) := by
  refine ⟨parseInRange?_eq c line, fun aware texts h => stageTexts_in_range h, fun text =>
    ⟨stageBySlices?_eq text, ?_, operatorsInRange text, unquotedBySlices?_eq text,
      splitBySlices?_eq text⟩⟩
  intro words redirection h
  exact length_pos_of_stageBySlices? h

/-- Offsets count bytes, so that wide characters push an operator back; the quoted sign is none. -/
theorem parsing_in_range_wide :
    let text : Text := "cat 'ß>' €>>ö".toList
    let words : List Text := ["cat".toList, "ß>".toList, "€".toList]
    let redirection : Redirection := ⟨.append, "ö".toList⟩
    stageTexts true text = .ok [text] ∧ text.trim = text ∧
      operatorsOf text = [⟨13, .append⟩] ∧ OperatorsInRange text (operatorsOf text) ∧
      stageBySlices? text = some (.ok (words, some redirection)) ∧ 1 ≤ words.length := by
  intro text words redirection
  obtain ⟨-, htrimmed, hstage⟩ := parsing_in_range .default text
  obtain ⟨hslices, hwords, hoperators, -⟩ := hstage text
  have htexts : stageTexts true text = .ok [text] := by decide
  have hread : stageBySlices? text = some (.ok (words, some redirection)) :=
    hslices.trans (by decide)
  obtain ⟨-, htrim⟩ := htrimmed true [text] htexts
  exact ⟨htexts, (htrim text (List.mem_singleton_self text)).1, by decide, hoperators, hread,
    hwords words (some redirection) hread⟩

end FileShell
