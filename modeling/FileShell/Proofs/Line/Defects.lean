import FileShell.Proofs.Line.Bars

/-! # What can be wrong with a line

The defects of a line are listed here by what stands in it, without the order in which they are
looked for: open quotes, stages without a word, redirections that are out of form or out of place,
commands that cannot be called, and words that a command has no use for.

* **`Signature.Defect`** — a defect of the words behind a command's name.
* **`Config.StageDefect`** — a defect of one part of a line between bars.
* **`fails_parse_iff`** — a line is refused if and only if one of its parts has a defect. -/

namespace FileShell

open Outcome

/-! ## Words behind a command -/

namespace Signature

/-- **The words that are operands**: all but the options. -/
def operandsOf (s : Signature) (words : List Text) : List Text :=
  words.filter fun word => !s.options.contains word

/-- **A defect of the words behind a command's name.** -/
inductive Defect (s : Signature) (words : List Text) : Prop
  /-- A word looks like an option and is none. -/
  | unknownOption {word : Text} (mem : word ∈ words) (undeclared : word ∉ s.options)
      (looks : s.looksLikeOption word = true)
  /-- There are too few operands. -/
  | tooFew (few : (s.operandsOf words).length < s.arity.min)
  /-- There are too many. -/
  | tooMany {max : Nat} (limit : s.arity.max = some max)
      (many : max < (s.operandsOf words).length)
  /-- An operand that must be a path is no path. -/
  | invalidPath {index : Nat} {word : Text} (stands : (s.operandsOf words)[index]? = some word)
      (path : s.requirement index (s.operandsOf words).length ≠ .free)
      (invalid : WordKind.ofWord? word = none)
  /-- An operand is a wildcard where a single path is required. -/
  | notSingle {index : Nat} {word : Text} (stands : (s.operandsOf words)[index]? = some word)
      (path : s.requirement index (s.operandsOf words).length ≠ .free)
      (single : s.requirement index (s.operandsOf words).length ≠ .singleOrWildcard)
      (wildcard : WordKind.ofWord? word = some .wildcard)

variable {s : Signature} {command : Text} {words : List Text}

/-- Options are told apart from operands unless one of them is unknown. -/
theorem fails_partition :
    Fails (s.partition command words) ↔
      ∃ word ∈ words, word ∉ s.options ∧ s.looksLikeOption word = true := by
  induction words with
  | nil => simp [partition]
  | cons word rest ih =>
    rw [partition, List.exists_mem_cons_iff]
    by_cases known : word ∈ s.options
    · rw [if_pos (List.contains_iff_mem.2 known), fails_bind, ih]
      simp [known]
    · rw [if_neg (mt List.contains_iff_mem.1 known)]
      by_cases looks : s.looksLikeOption word = true
      · rw [if_pos looks]
        simp [known, looks]
      · rw [if_neg looks, fails_bind, ih]
        simp [looks]

/-- The words that pass for operands are those that are no options. -/
theorem operands_of_partition {options operands : List Text}
    (h : s.partition command words = .ok (options, operands)) : operands = s.operandsOf words := by
  induction words generalizing options operands with
  | nil =>
    cases h
    rfl
  | cons word rest ih =>
    rw [partition] at h
    rw [operandsOf, List.filter_cons]
    split at h
    · next known =>
      obtain ⟨⟨options', operands'⟩, hrest, h⟩ := bind_eq_ok.1 h
      cases h
      rw [if_neg (by simpa using known), ih hrest, operandsOf]
    · next unknown =>
      split at h
      · cases h
      · obtain ⟨⟨options', operands'⟩, hrest, h⟩ := bind_eq_ok.1 h
        cases h
        rw [if_pos (by simpa using unknown), ih hrest, operandsOf]

/-- A number of operands is wrong if it is too small or too large. -/
theorem fails_checkCount {count : Nat} :
    Fails (s.checkCount command count) ↔
      count < s.arity.min ∨ ∃ max, s.arity.max = some max ∧ max < count := by
  unfold checkCount
  by_cases few : count < s.arity.min
  · simp [few]
  · rcases hmax : s.arity.max with _ | max
    · simp [few]
    · by_cases many : max < count
      · simp [few, many]
      · simp [few, many]

/-- **An operand is refused** if it must be a path and is none, or a wildcard where it may not be
one. -/
theorem fails_readOperand {index count : Nat} {word : Text} :
    Fails (s.readOperand command index count word) ↔
      s.requirement index count ≠ .free ∧
        (WordKind.ofWord? word = none ∨
          s.requirement index count ≠ .singleOrWildcard ∧
            WordKind.ofWord? word = some .wildcard) := by
  unfold readOperand
  by_cases free : s.requirement index count = .free
  · simp [free, Requirement.isPath]
  · rcases hword : WordKind.ofWord? word with _ | _ | _
    · simp [free, Requirement.isPath]
    · simp [free, Requirement.isPath]
    · by_cases allowed : s.requirement index count = .singleOrWildcard
      · simp [allowed, Requirement.isPath, Requirement.allowsWildcard]
      · simp [free, allowed, Requirement.isPath, Requirement.allowsWildcard]

/-- Operands are refused because of one of them. -/
theorem fails_readOperands {index count : Nat} :
    Fails (s.readOperands command count index words) ↔
      ∃ i word, words[i]? = some word ∧ Fails (s.readOperand command (index + i) count word) := by
  induction words generalizing index with
  | nil => simp [readOperands]
  | cons first rest ih =>
    have hrest (operand : Operand) :
        Fails (s.readOperands command count (index + 1) rest >>= fun operands =>
          pure (operand :: operands)) ↔ Fails (s.readOperands command count (index + 1) rest) := by
      simp [fails_bind]
    rw [readOperands, fails_bind_iff fun _ _ => hrest _, ih]
    constructor
    · rintro (hfirst | ⟨i, word, hi, hword⟩)
      · exact ⟨0, first, rfl, hfirst⟩
      · exact ⟨i + 1, word, hi, by rwa [Nat.add_comm i, ← Nat.add_assoc]⟩
    · rintro ⟨i, word, hi, hword⟩
      cases i with
      | zero =>
        obtain rfl : first = word := by simpa using hi
        exact .inl hword
      | succ i => exact .inr ⟨i, word, hi, by rwa [Nat.add_assoc, Nat.add_comm 1]⟩

/-- The words behind a command's name are refused for an unknown option, for the number of operands,
or for one of them. -/
theorem fails_read :
    Fails (s.read command words) ↔
      Fails (s.partition command words) ∨ Fails (s.checkCount command (s.operandsOf words).length) ∨
        Fails (s.readOperands command (s.operandsOf words).length 0 (s.operandsOf words)) := by
  rw [read, fails_bind_iff, fails_mapError]
  -- which words are operands does not depend on whether all options are known
  rintro ⟨options, operands⟩ hpartition
  obtain rfl := operands_of_partition (mapError_eq_ok_iff.1 hpartition)
  rw [fails_bind_iff, fails_mapError]
  intro _ _
  rw [fails_bind]
  simp

/-- **The words behind a command's name are refused exactly if they have a defect.** -/
theorem fails_read_iff : Fails (s.read command words) ↔ s.Defect words := by
  rw [fails_read, fails_partition, fails_checkCount, fails_readOperands]
  simp only [Nat.zero_add, fails_readOperand]
  constructor
  · rintro (⟨word, mem, undeclared, looks⟩ | (few | ⟨max, limit, many⟩) |
      ⟨index, word, stands, path, invalid | ⟨single, wildcard⟩⟩)
    · exact .unknownOption mem undeclared looks
    · exact .tooFew few
    · exact .tooMany limit many
    · exact .invalidPath stands path invalid
    · exact .notSingle stands path single wildcard
  · intro defect
    cases defect with
    | unknownOption mem undeclared looks => exact .inl ⟨_, mem, undeclared, looks⟩
    | tooFew few => exact .inr (.inl (.inl few))
    | tooMany limit many => exact .inr (.inl (.inr ⟨_, limit, many⟩))
    | invalidPath stands path invalid => exact .inr (.inr ⟨_, _, stands, path, .inl invalid⟩)
    | notSingle stands path single wildcard =>
      exact .inr (.inr ⟨_, _, stands, path, .inr ⟨single, wildcard⟩⟩)

end Signature

/-! ## Commands -/

namespace Config

/-- **A defect of a command's name or of the words behind it.** -/
inductive CommandDefect (c : Config) (name : Text) (words : List Text) : Prop
  /-- No command has this name. -/
  | unknown (unknown : ∀ command : Command, command.name ≠ name)
  /-- The command is switched off. -/
  | disabled {command : Command} (named : command.name = name) (off : c.enables command = false)
  /-- The command has no use for the words. -/
  | words {command : Command} (named : command.name = name)
      (defect : command.signature.Defect words)

variable {c : Config}

/-- **A stage whose form is known is refused exactly if its command has a defect.** -/
theorem fails_readStage_iff {draft : Draft} :
    Fails (c.readStage draft) ↔ c.CommandDefect draft.command draft.words := by
  rw [readStage, fails_bind, fails_mapError]
  simp only [fails_bind, Signature.fails_read_iff, pure_eq, not_fails_ok, and_false, exists_false,
    or_false, mapError_eq_ok_iff]
  constructor
  · rintro (h | ⟨command, hcommand, defect⟩)
    · by_cases known : ∃ command : Command, command.name = draft.command
      · obtain ⟨command, named⟩ := known
        refine .disabled named (Bool.eq_false_iff.2 fun enabled => ?_)
        rw [lookUp_eq_ok.2 ⟨named, enabled⟩] at h
        exact not_fails_ok command h
      · exact .unknown (not_exists.1 known)
    · exact .words (lookUp_eq_ok.1 hcommand).1 defect
  · intro defect
    -- the name is looked up first, so what is wrong with the words shows only if it is of use
    rcases fails_or_exists_ok (c.lookUp draft.command) with h | ⟨command, h⟩
    · exact .inl h
    obtain ⟨named, enabled⟩ := lookUp_eq_ok.1 h
    refine .inr ⟨command, h, ?_⟩
    cases defect with
    | unknown unknown => exact absurd named (unknown command)
    | disabled named' off =>
      rw [Command.name_injective (named'.trans named.symm), enabled] at off
      cases off
    | words named' defect =>
      rw [← Command.name_injective (named'.trans named.symm)]
      exact defect

end Config

/-! ## Redirections -/

/-- **A defect of the operators** among the tokens of a stage. -/
inductive RedirectionDefect (tokens : List Token) : Prop
  /-- Nothing follows an operator. -/
  | dangling {before : List Token} {mode : WriteMode} (h : tokens = before ++ [.operator mode])
  /-- One operator follows another. -/
  | second {before between after : List Token} {mode other : WriteMode}
      (h : tokens = before ++ .operator mode :: (between ++ .operator other :: after))
  /-- More than one word follows an operator. -/
  | manyTargets {before after : List Token} {mode : WriteMode} {target other : Text}
      (h : tokens = before ++ .operator mode :: .word target :: .word other :: after)
  /-- The word that follows an operator does not name a single path. -/
  | badTarget {before after : List Token} {mode : WriteMode} {target : Text}
      (h : tokens = before ++ .operator mode :: .word target :: after)
      (unfit : WordKind.ofWord? target ≠ some .single)

/-- The words at the start of a list of tokens. -/
def Token.leadingWords : List Token → List Text
  | .word text :: rest => text :: leadingWords rest
  | _ => []

@[simp] theorem Token.leadingWords_operator (words : List Text) (mode : WriteMode)
    (rest : List Token) : leadingWords (words.map .word ++ .operator mode :: rest) = words := by
  induction words with
  | nil => rfl
  | cons word words ih => exact congrArg (word :: ·) ih

@[simp] theorem Token.leadingWords_map (words : List Text) :
    leadingWords (words.map .word) = words := by
  induction words with
  | nil => rfl
  | cons word words ih => exact congrArg (word :: ·) ih

/-- **Tokens without a bar are words**, perhaps with an operator behind them. -/
theorem exists_words_of_bar_not_mem {tokens : List Token} (h : Token.bar ∉ tokens) :
    ∃ words : List Text, tokens = words.map .word ∨
      ∃ mode rest, tokens = words.map .word ++ .operator mode :: rest := by
  induction tokens with
  | nil => exact ⟨[], .inl rfl⟩
  | cons token tokens ih =>
    cases token with
    | word text =>
      obtain ⟨words, rfl | ⟨mode, rest, rfl⟩⟩ := ih fun hmem => h (List.mem_cons_of_mem _ hmem)
      · exact ⟨text :: words, .inl rfl⟩
      · exact ⟨text :: words, .inr ⟨mode, rest, rfl⟩⟩
    | operator mode => exact ⟨[], .inr ⟨mode, tokens, rfl⟩⟩
    | bar => exact absurd List.mem_cons_self h

section

variable {tokens before after : List Token} {d : Draft} {mode : WriteMode}

/-- The words of a stage stand before its operator. -/
theorem IsStage.leadingWords (h : IsStage tokens d) :
    Token.leadingWords tokens = d.command :: d.words := by
  cases h with
  | plain command words => exact Token.leadingWords_map (command :: words)
  | redirected command words mode single =>
    exact Token.leadingWords_operator (command :: words) mode _

/-- A stage without operators has no redirection. -/
theorem IsStage.redirection_ne_none (h : IsStage tokens d) (mem : .operator mode ∈ tokens) :
    d.redirection ≠ none := by
  cases h with
  | plain command words =>
    rw [← List.map_cons] at mem
    exact absurd rfl (not_isSign_of_mem mem)
  | redirected command words mode single => exact Option.some_ne_none _

/-- A stage with a redirection has an operator. -/
theorem IsStage.exists_operator (h : IsStage tokens d) (redirected : d.redirection ≠ none) :
    ∃ mode, .operator mode ∈ tokens := by
  cases h with
  | plain command words => exact absurd rfl redirected
  | redirected command words mode single => exact ⟨mode, by simp⟩

/-- **Behind the operator of a stage there is one word**, which names a single path. -/
theorem IsStage.target (h : IsStage tokens d) (heq : tokens = before ++ .operator mode :: after) :
    ∃ target, after = [.word target] ∧ WordKind.ofWord? target = some .single := by
  have hmem : .operator mode ∈ tokens := by simp [heq]
  cases h with
  | plain command words =>
    rw [← List.map_cons] at hmem
    exact absurd rfl (not_isSign_of_mem hmem)
  | @redirected command words mode' target single =>
    rw [← List.map_cons] at heq
    rcases List.append_eq_append_iff.1 heq with ⟨more, rfl, hmore⟩ | ⟨more, hwords, hmore⟩
    · -- the operator is not among the words, and it is not the word behind them
      rcases more with _ | ⟨_, _ | ⟨_, more⟩⟩
      · obtain ⟨-, rfl⟩ : mode' = mode ∧ [.word target] = after := by simpa using hmore
        exact ⟨target, rfl, single⟩
      · simp at hmore
      · simp at hmore
    · rcases more with _ | ⟨token, more⟩
      · obtain ⟨-, rfl⟩ : mode = mode' ∧ after = [.word target] := by simpa using hmore
        exact ⟨target, rfl, single⟩
      · obtain ⟨rfl, -⟩ : .operator mode = token ∧ _ := by simpa using hmore
        have hmem : .operator mode ∈ (command :: words).map Token.word := by
          rw [hwords]
          exact List.mem_append_right _ List.mem_cons_self
        exact absurd rfl (not_isSign_of_mem hmem)

/-- **Tokens without a bar are a stage** exactly if they begin with a word and have no defect in
their operators. -/
theorem exists_isStage_iff (bars : Token.bar ∉ tokens) :
    (∃ d, IsStage tokens d) ↔
      Token.leadingWords tokens ≠ [] ∧ ¬RedirectionDefect tokens := by
  constructor
  · rintro ⟨d, stage⟩
    refine ⟨by simp [stage.leadingWords], fun defect => ?_⟩
    cases defect with
    | dangling h =>
      obtain ⟨_, hafter, -⟩ := stage.target h
      simp at hafter
    | @second before between after mode other h =>
      obtain ⟨target, hafter, -⟩ := stage.target h
      have hmem : Token.operator other ∈ [Token.word target] := by simp [← hafter]
      simp at hmem
    | manyTargets h =>
      obtain ⟨_, hafter, -⟩ := stage.target h
      simp at hafter
    | badTarget h unfit =>
      obtain ⟨_, hafter, single⟩ := stage.target h
      obtain ⟨rfl, -⟩ : _ ∧ _ := by simpa using hafter
      exact unfit single
  · rintro ⟨hwords, sound⟩
    obtain ⟨words, rfl | ⟨mode, rest, rfl⟩⟩ := exists_words_of_bar_not_mem bars
    · rw [Token.leadingWords_map] at hwords
      obtain ⟨command, words, rfl⟩ := List.exists_cons_of_ne_nil hwords
      exact ⟨_, .plain command words⟩
    · rw [Token.leadingWords_operator] at hwords
      obtain ⟨command, words, rfl⟩ := List.exists_cons_of_ne_nil hwords
      -- what follows the operator can only be one word
      rcases rest with _ | ⟨target | other | _, rest⟩
      · exact absurd (.dangling rfl) sound
      · by_cases single : WordKind.ofWord? target = some .single
        · rcases rest with _ | ⟨_ | other | _, rest⟩
          · exact ⟨_, .redirected command words mode single⟩
          · exact absurd (.manyTargets rfl) sound
          · exact absurd (@RedirectionDefect.second _ _ [.word target] rest mode other rfl) sound
          · simp at bars
        · exact absurd (.badTarget rfl single) sound
      · exact absurd (@RedirectionDefect.second _ _ [] rest mode other rfl) sound
      · simp at bars

end

/-! ## Parts of a line -/

/-- **The parts of a line keep their bars quoted**, whether quotes count or not when it is cut. -/
theorem allQuoted_of_mem_cutAtBars {aware : Bool} {line part : Text}
    (h : part ∈ cutAtBars aware none line) : AllQuoted ['|'] none part := by
  cases aware with
  | false => exact allQuoted_of_not_mem (bar_not_mem_part h)
  | true =>
    -- by induction on the parts: the first ends at the first bar outside quotes
    induction hparts : cutAtBars true none line generalizing line with
    | nil => exact absurd hparts (cutAtBars_ne_nil true none line)
    | cons first parts ih =>
      rcases cutAtBars_cases none line with ⟨hquoted, hcut⟩ | ⟨before, rest, rfl, hquoted, -, hcut⟩
      · obtain rfl : part = line := by simpa [hcut] using h
        exact hquoted
      · obtain ⟨-, hrest⟩ : first = before ∧ parts = cutAtBars true none rest := by
          simpa [hcut, eq_comm] using hparts
        rw [hcut] at h
        rcases List.mem_cons.1 h with rfl | hmem
        · exact hquoted
        · exact ih hmem hrest.symm

namespace Config

/-- **A defect of a part of a line**, which may be the last one. -/
inductive StageDefect (c : Config) (isLast : Bool) (part : Text) : Prop
  /-- The part holds nothing but blanks. -/
  | blank (h : part.isAllBlank = true)
  /-- A quote is left open. -/
  | openQuote {quote : Char} (read : tokensOf part = .error quote)
  /-- There is no word in front. -/
  | noCommand {tokens : List Token} (read : tokensOf part = .ok tokens)
      (none : Token.leadingWords tokens = [])
  /-- A redirection is out of form. -/
  | redirection {tokens : List Token} (read : tokensOf part = .ok tokens)
      (defect : RedirectionDefect tokens)
  /-- A redirection is out of place, since another stage follows. -/
  | early {tokens : List Token} {mode : WriteMode} (read : tokensOf part = .ok tokens)
      (mem : .operator mode ∈ tokens) (followed : isLast = false)
  /-- The words in front are of no use. -/
  | command {tokens : List Token} {name : Text} {words : List Text}
      (read : tokensOf part = .ok tokens) (leading : Token.leadingWords tokens = name :: words)
      (defect : c.CommandDefect name words)

/-- **One stage read**, from its text to its command. -/
def readText (c : Config) (isLast : Bool) (text : Text) : Except Failure Stage := do
  let draft ← (Draft.ofText text).mapError .line
  (checkRedirection isLast draft).mapError .line
  c.readStage draft

variable {c : Config}

/-- The stages of a line are read one by one. -/
theorem readStages_cons (text : Text) (rest : List Text) :
    c.readStages (text :: rest) =
      c.readText rest.isEmpty text >>= fun stage => (stage :: ·) <$> c.readStages rest := by
  rw [readStages, readText]
  cases (Draft.ofText text).mapError Failure.line with
  | error e => rfl
  | ok draft =>
    cases hcheck : (checkRedirection rest.isEmpty draft).mapError Failure.line with
    | error e => simp [hcheck]
    | ok _ =>
      simp only [ok_bind, hcheck]
      cases c.readStage draft with
      | error e => rfl
      | ok stage => cases c.readStages rest <;> rfl

/-- A redirection is out of place on any stage but the last. -/
theorem fails_checkRedirection {isLast : Bool} {draft : Draft} :
    Fails (checkRedirection isLast draft) ↔ draft.redirection ≠ none ∧ isLast = false := by
  unfold checkRedirection
  rcases draft.redirection with _ | r
  · simp
  · cases isLast <;> simp

/-- A part has a draft if its tokens are those of a stage. -/
theorem ofText_trim_eq_ok {part : Text} (quoted : AllQuoted ['|'] none part) {d : Draft} :
    Draft.ofText part.trim = .ok d ↔
      ∃ tokens, tokensOf part = .ok tokens ∧ IsStage tokens d := by
  rw [ofText_eq_ok_iff_isStage (allQuoted_trim quoted), tokensOf_trim]

/-- **A part has no draft** if a quote is left open in it, if it has no word in front, or if its
redirection is out of form. -/
theorem fails_ofText_trim {part : Text} (quoted : AllQuoted ['|'] none part) :
    Fails (Draft.ofText part.trim) ↔
      (∃ quote, tokensOf part = .error quote) ∨
        ∃ tokens, tokensOf part = .ok tokens ∧
          (Token.leadingWords tokens = [] ∨ RedirectionDefect tokens) := by
  rw [← not_iff_not, ← exists_eq_ok_iff]
  simp only [ofText_trim_eq_ok quoted]
  rcases htokens : tokensOf part with quote | tokens
  · simp
  · have hstage := exists_isStage_iff (bar_not_mem_tokensFrom quoted htokens)
    simp [hstage]

/-- **A part is refused exactly if it has a defect.** -/
theorem fails_readText_iff {part : Text} (quoted : AllQuoted ['|'] none part) {isLast : Bool} :
    Fails (c.readText isLast part.trim) ↔ c.StageDefect isLast part := by
  rw [readText, fails_bind, fails_mapError]
  simp only [fails_bind, fails_mapError, mapError_eq_ok_iff, fails_checkRedirection,
    fails_readStage_iff]
  constructor
  · rintro (h | ⟨draft, hdraft, h⟩)
    · rcases (fails_ofText_trim quoted).1 h with ⟨quote, read⟩ | ⟨tokens, read, none | defect⟩
      · exact .openQuote read
      · exact .noCommand read none
      · exact .redirection read defect
    · obtain ⟨tokens, read, stage⟩ := (ofText_trim_eq_ok quoted).1 hdraft
      rcases h with ⟨redirected, followed⟩ | ⟨_, -, defect⟩
      · obtain ⟨mode, mem⟩ := stage.exists_operator redirected
        exact .early read mem followed
      · exact .command read stage.leadingWords defect
  · intro defect
    -- what is wrong with the command or its place shows only in a part that has a draft
    rcases fails_or_exists_ok (Draft.ofText part.trim) with h | ⟨draft, hdraft⟩
    · exact .inl h
    obtain ⟨tokens, htokens, stage⟩ := (ofText_trim_eq_ok quoted).1 hdraft
    have hsame {others : List Token} (read : tokensOf part = .ok others) : tokens = others := by
      rw [htokens] at read
      exact Except.ok.inj read
    cases defect with
    | blank h =>
      rw [trim_eq_nil h]
      exact .inl ⟨_, rfl⟩
    | openQuote read => exact .inl ((fails_ofText_trim quoted).2 (.inl ⟨_, read⟩))
    | noCommand read none => exact .inl ((fails_ofText_trim quoted).2 (.inr ⟨_, read, .inl none⟩))
    | redirection read defect =>
      exact .inl ((fails_ofText_trim quoted).2 (.inr ⟨_, read, .inr defect⟩))
    | early read mem followed =>
      obtain rfl := hsame read
      exact .inr ⟨draft, hdraft, .inl ⟨stage.redirection_ne_none mem, followed⟩⟩
    | command read leading defect =>
      obtain rfl := hsame read
      rw [stage.leadingWords] at leading
      cases leading
      refine .inr ⟨draft, hdraft, ?_⟩
      rcases fails_or_exists_ok (checkRedirection isLast draft) with h | ⟨_, hcheck⟩
      · exact .inl (fails_checkRedirection.1 h)
      · exact .inr ⟨(), hcheck, defect⟩

/-! ## Lines -/

/-- Stages are refused because of one of them. -/
theorem fails_readStages_iff {texts : List Text} :
    Fails (c.readStages texts) ↔
      ∃ before text after, texts = before ++ text :: after ∧
        Fails (c.readText after.isEmpty text) := by
  induction texts with
  | nil => simp [readStages]
  | cons first rest ih =>
    rw [readStages_cons, fails_bind_iff fun _ _ => fails_map, ih]
    constructor
    · rintro (h | ⟨before, text, after, rfl, h⟩)
      · exact ⟨[], first, rest, rfl, h⟩
      · exact ⟨first :: before, text, after, rfl, h⟩
    · rintro ⟨before, text, after, heq, h⟩
      cases before with
      | nil =>
        obtain ⟨rfl, rfl⟩ : first = text ∧ rest = after := by simpa using heq
        exact .inl h
      | cons other before =>
        obtain ⟨rfl, rfl⟩ : first = other ∧ rest = before ++ text :: after := by simpa using heq
        exact .inr ⟨before, text, after, rfl, h⟩

/-- **A line is refused because of one of its parts.** A part of nothing but blanks is no stage,
wherever this is found out. -/
theorem fails_parse {line : Text} :
    Fails (c.parse line) ↔
      Fails (c.readStages ((cutAtBars c.settings.quoteAwareBars none line).map Text.trim)) := by
  have hempty (h : Fails (stageTexts c.settings.quoteAwareBars line)) :
      Fails (c.readStages ((cutAtBars c.settings.quoteAwareBars none line).map Text.trim)) := by
    rcases fails_or_exists_ok (c.readStages
        ((cutAtBars c.settings.quoteAwareBars none line).map Text.trim)) with hs | ⟨stages, hs⟩
    · exact hs
    · have hne : [] ∉ (cutAtBars c.settings.quoteAwareBars none line).map Text.trim := by
        intro hmem
        obtain ⟨draft, hdraft⟩ := exists_draft_of_readStages hs hmem
        cases hdraft
      rw [stageTexts_eq_ok.2 ⟨rfl, hne⟩] at h
      exact absurd h (not_fails_ok _)
  -- so it does not matter whether the empty part is noticed when the line is cut or when it is read
  rw [parse, fails_bind_iff, fails_mapError, or_iff_right_of_imp hempty]
  intro texts htexts
  obtain ⟨rfl, -⟩ := stageTexts_eq_ok.1 (mapError_eq_ok_iff.1 htexts)
  rfl

/-- **A line with a defect**, in whichever of its parts. -/
def Defective (c : Config) (line : Text) : Prop :=
  ∃ before part after, cutAtBars c.settings.quoteAwareBars none line = before ++ part :: after ∧
    c.StageDefect after.isEmpty part

/-- **A line is refused exactly if it has a defect**: none is overlooked, however many stages stand
before it, and nothing else is found. -/
theorem fails_parse_iff {line : Text} : Fails (c.parse line) ↔ c.Defective line := by
  rw [fails_parse, fails_readStages_iff]
  constructor
  · rintro ⟨before, text, after, heq, h⟩
    obtain ⟨parts, rest, hcut, rfl, hrest⟩ := List.map_eq_append_iff.1 heq
    obtain ⟨part, later, rfl, rfl, rfl⟩ := List.map_eq_cons_iff.1 hrest
    have quoted : AllQuoted ['|'] none part := allQuoted_of_mem_cutAtBars (by rw [hcut]; simp)
    rw [List.isEmpty_map] at h
    exact ⟨parts, part, later, hcut, (fails_readText_iff quoted).1 h⟩
  · rintro ⟨before, part, after, hcut, defect⟩
    have quoted : AllQuoted ['|'] none part := allQuoted_of_mem_cutAtBars (by rw [hcut]; simp)
    refine ⟨before.map Text.trim, part.trim, after.map Text.trim, by simp [hcut], ?_⟩
    rw [List.isEmpty_map]
    exact (fails_readText_iff quoted).2 defect

end Config

end FileShell
