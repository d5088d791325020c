import FileShell.Proofs.Command.Registry
import FileShell.Proofs.Outcome
import FileShell.Shell.Pipeline

/-! # What reading a line comes to

A line is read stage by stage. It is read if every stage is (`readStages_cons_eq_ok`), and where it
is not, the failure is one that can be found without a look at the files (`reading_of_parse`). -/

namespace FileShell

/-! ## Lines that are read -/

/-- **Stages are read** if the first one is and the rest are; only the last one may have a
redirection. -/
theorem readStages_cons_eq_ok {c : Config} {text : Text} {rest : List Text} {stages : List Stage} :
    c.readStages (text :: rest) = .ok stages ↔
      ∃ draft stage others, Draft.ofText text = .ok draft ∧
        Config.checkRedirection rest.isEmpty draft = .ok () ∧ c.readStage draft = .ok stage ∧
        c.readStages rest = .ok others ∧ stages = stage :: others := by
  rw [Config.readStages]
  simp only [Outcome.bind_eq_ok, Outcome.mapError_eq_ok_iff, Outcome.pure_eq, Except.ok.injEq]
  constructor
  · rintro ⟨draft, hdraft, _, hcheck, stage, hstage, others, hothers, rfl⟩
    exact ⟨draft, stage, others, hdraft, hcheck, hstage, hothers, rfl⟩
  · rintro ⟨draft, stage, others, hdraft, hcheck, hstage, hothers, rfl⟩
    exact ⟨draft, hdraft, (), hcheck, stage, hstage, others, hothers, rfl⟩

/-- **A stage is read** from the command that its first word names and from the words behind it. -/
theorem readStage_eq_ok {c : Config} {draft : Draft} {stage : Stage} :
    c.readStage draft = .ok stage ↔
      c.lookUp draft.command = .ok stage.command ∧
        stage.command.signature.read draft.command draft.words = .ok stage.arguments ∧
        stage.redirection = draft.redirection := by
  rw [Config.readStage]
  simp only [Outcome.bind_eq_ok, Outcome.mapError_eq_ok_iff, Outcome.pure_eq, Except.ok.injEq]
  constructor
  · rintro ⟨command, hcommand, arguments, harguments, rfl⟩
    exact ⟨hcommand, harguments, rfl⟩
  · rintro ⟨hcommand, harguments, hredirection⟩
    refine ⟨_, hcommand, _, harguments, ?_⟩
    rw [← hredirection]

/-- Every text of a line that was read has a draft. -/
theorem exists_draft_of_readStages {c : Config} {texts : List Text} {stages : List Stage}
    (h : c.readStages texts = .ok stages) {text : Text} (hmem : text ∈ texts) :
    ∃ draft, Draft.ofText text = .ok draft := by
  induction texts generalizing stages with
  | nil => cases hmem
  | cons first rest ih =>
    obtain ⟨draft, _, others, hdraft, -, -, hothers, -⟩ := readStages_cons_eq_ok.1 h
    rcases List.mem_cons.1 hmem with rfl | hmem
    · exact ⟨draft, hdraft⟩
    · exact ih hothers hmem

/-! ## Lines that are refused -/

/-- **When a failure arises**: while the line is read, while the words of a stage are bound to what
they name, or while its command runs. The request to leave the shell is an end of its own. -/
inductive Phase
  | reading | binding | running | leaving
deriving DecidableEq, Repr

/-- **The phase in which a failure arises.** There is one cause that belongs to none: a command that
copies or moves is never called without a path. -/
def Failure.phase? : Failure → Option Phase
  | .line _ | .path (.invalid _) => some .reading
  | .path (.noMatch _) => some .binding
  | .execution _ => some .running
  | .halt => some .leaving
  | .argument cause =>
    match cause with
    | .unknownCommand _ | .disabledCommand _ | .unknownOption _ _ | .tooFew _ _ _
    | .tooMany _ _ _ | .notSingle _ _ => some .reading
    | .notDirectory _ _ | .ambiguousDestination _ _ => some .binding
    | .unknownTopic _ _ | .unsupportedKey _ => some .running
    | .missingDestination _ => none

variable {e : Failure}

/-- Options are told apart from operands, or one of them is unknown. -/
theorem exists_of_partition {s : Signature} {command : Text} {words : List Text}
    {cause : ArgumentError} (h : s.partition command words = .error cause) :
    ∃ word, cause = .unknownOption command word := by
  induction words with
  | nil => cases h
  | cons word rest ih =>
    rw [Signature.partition] at h
    split at h
    · rcases Outcome.bind_eq_error.1 h with h | ⟨_, -, h⟩
      · exact ih h
      · cases h
    · split at h
      · cases h
        exact ⟨word, rfl⟩
      · rcases Outcome.bind_eq_error.1 h with h | ⟨_, -, h⟩
        · exact ih h
        · cases h

/-- **The failures that the words behind a command are refused with.** -/
inductive Failure.OfWords : Failure → Prop
  | unknownOption (command word : Text) : OfWords (.argument (.unknownOption command word))
  | tooFew (command : Text) (arity : Arity) (count : Nat) :
    OfWords (.argument (.tooFew command arity count))
  | tooMany (command : Text) (arity : Arity) (count : Nat) :
    OfWords (.argument (.tooMany command arity count))
  | notSingle (command word : Text) : OfWords (.argument (.notSingle command word))
  | invalid (word : Text) : OfWords (.path (.invalid word))

/-- A wrong number of operands is too small or too large. -/
theorem ofWords_of_checkCount {s : Signature} {command : Text} {count : Nat}
    {cause : ArgumentError} (h : s.checkCount command count = .error cause) :
    (Failure.argument cause).OfWords := by
  unfold Signature.checkCount at h
  split at h
  · cases h
    exact .tooFew _ _ _
  · split at h
    · cases h
      exact .tooMany _ _ _
    · cases h

/-- An operand is refused for its word alone. -/
theorem ofWords_of_readOperand {s : Signature} {command : Text} {index count : Nat}
    {word : Text} (h : s.readOperand command index count word = .error e) : e.OfWords := by
  unfold Signature.readOperand at h
  simp only at h
  split at h
  · cases h
  · split at h
    · cases h
      exact .invalid _
    · cases h
    · split at h
      · cases h
      · cases h
        exact .notSingle _ _

/-- Operands are refused for one of them. -/
theorem ofWords_of_readOperands {s : Signature} {command : Text} {index count : Nat}
    {words : List Text} (h : s.readOperands command count index words = .error e) :
    e.OfWords := by
  induction words generalizing index with
  | nil => cases h
  | cons word rest ih =>
    rw [Signature.readOperands] at h
    rcases Outcome.bind_eq_error.1 h with h | ⟨_, -, h⟩
    · exact ofWords_of_readOperand h
    · rcases Outcome.bind_eq_error.1 h with h | ⟨_, -, h⟩
      · exact ih h
      · cases h

/-- **The words behind a command are refused for what they are.** -/
theorem ofWords_of_read {s : Signature} {command : Text} {words : List Text}
    (h : s.read command words = .error e) : e.OfWords := by
  rw [Signature.read] at h
  rcases Outcome.bind_eq_error.1 h with h | ⟨⟨options, operands⟩, -, h⟩
  · obtain ⟨cause, hcause, rfl⟩ := Outcome.mapError_eq_error_iff.1 h
    obtain ⟨word, rfl⟩ := exists_of_partition hcause
    exact .unknownOption _ _
  · rcases Outcome.bind_eq_error.1 h with h | ⟨_, -, h⟩
    · obtain ⟨cause, hcause, rfl⟩ := Outcome.mapError_eq_error_iff.1 h
      exact ofWords_of_checkCount hcause
    · rcases Outcome.bind_eq_error.1 h with h | ⟨_, -, h⟩
      · exact ofWords_of_readOperands h
      · cases h

/-- Words are refused while the line is read. -/
theorem Failure.OfWords.reading (h : e.OfWords) : e.phase? = some .reading := by
  cases h <;> rfl

/-- A command is refused because it is unknown or switched off. -/
theorem reading_of_lookUp {c : Config} {word : Text} {cause : ArgumentError}
    (h : c.lookUp word = .error cause) : (Failure.argument cause).phase? = some .reading := by
  rcases Config.lookUp_eq_error h with rfl | rfl <;> rfl

/-- Stages are refused for their texts alone. -/
theorem reading_of_readStages {c : Config} {texts : List Text}
    (h : c.readStages texts = .error e) : e.phase? = some .reading := by
  induction texts with
  | nil => cases h
  | cons text rest ih =>
    rw [Config.readStages] at h
    -- the form of the stage, its redirection, its command and words, and then the other stages
    rcases Outcome.bind_eq_error.1 h with h | ⟨draft, -, h⟩
    · obtain ⟨cause, -, rfl⟩ := Outcome.mapError_eq_error_iff.1 h
      rfl
    rcases Outcome.bind_eq_error.1 h with h | ⟨_, -, h⟩
    · obtain ⟨cause, -, rfl⟩ := Outcome.mapError_eq_error_iff.1 h
      rfl
    rcases Outcome.bind_eq_error.1 h with h | ⟨stage, -, h⟩
    · rcases Outcome.bind_eq_error.1 h with h | ⟨command, -, h⟩
      · obtain ⟨cause, hcause, rfl⟩ := Outcome.mapError_eq_error_iff.1 h
        exact reading_of_lookUp hcause
      · rcases Outcome.bind_eq_error.1 h with h | ⟨_, -, h⟩
        · exact (ofWords_of_read h).reading
        · cases h
    rcases Outcome.bind_eq_error.1 h with h | ⟨_, -, h⟩
    · exact ih h
    · cases h

/-- **A line is refused for its text alone.** -/
theorem reading_of_parse {c : Config} {line : Text} (h : c.parse line = .error e) :
    e.phase? = some .reading := by
  rw [Config.parse] at h
  rcases Outcome.bind_eq_error.1 h with h | ⟨texts, -, h⟩
  · obtain ⟨cause, -, rfl⟩ := Outcome.mapError_eq_error_iff.1 h
    rfl
  · exact reading_of_readStages h

end FileShell
