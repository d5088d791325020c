import FileShell.Proofs.Command.Binding
import FileShell.Proofs.Line.Defects

/-! # How words become arguments

The words behind a command's name fall into two lists, the options and the operands, each in the
order in which the words stand. Reading them comes to reading these two lists: the operands that
look like options are found first, then the number of operands is checked, then each operand at its
position among the operands. So it plays no part where the options stand, and no word is lost.

* **`Signature.partition_eq`** — how words are told apart, from the two lists.
* **`Signature.read_eq_ok_iff`** — what it means that words are read as given arguments.
* **`read_loses_no_word`** — which words are read at all, as what, and what this depends on. -/

namespace FileShell

namespace Signature

variable {s : Signature} {command : Text} {words : List Text}

/-! ## Options and operands -/

/-- **The words that are options.** -/
def optionsOf (s : Signature) (words : List Text) : List Text := words.filter (s.options.contains ·)

/-- Options and operands are all the words. -/
theorem optionsOf_append_operandsOf_perm (s : Signature) (words : List Text) :
    (s.optionsOf words ++ s.operandsOf words).Perm words :=
  List.filter_append_perm _ words

/-- A word looks like an option if it begins with a dash and goes on, for a command that has options
at all. -/
theorem looksLikeOption_iff {word : Text} :
    s.looksLikeOption word = true ↔ s.options ≠ [] ∧ ∃ c rest, word = '-' :: c :: rest := by
  rw [looksLikeOption, Bool.and_eq_true, Bool.and_eq_true, and_assoc]
  refine and_congr (by simp) ?_
  rcases word with _ | ⟨c, _ | ⟨d, rest⟩⟩ <;> simp

/-- **Words are told apart wherever they stand.** The first operand that looks like an option is the
failure. -/
theorem partition_eq (s : Signature) (command : Text) (words : List Text) :
    s.partition command words =
      match (s.operandsOf words).find? s.looksLikeOption with
      | some word => .error (.unknownOption command word)
      | none => .ok (s.optionsOf words, s.operandsOf words) := by
  induction words with
  | nil => rfl
  | cons word rest ih =>
    rw [partition, ih]
    by_cases known : s.options.contains word = true
    · have hoptions : s.optionsOf (word :: rest) = word :: s.optionsOf rest :=
        List.filter_cons_of_pos known
      have hoperands : s.operandsOf (word :: rest) = s.operandsOf rest :=
        List.filter_cons_of_neg (by simpa using known)
      rw [if_pos known, hoptions, hoperands]
      cases (s.operandsOf rest).find? s.looksLikeOption <;> rfl
    · have hoptions : s.optionsOf (word :: rest) = s.optionsOf rest :=
        List.filter_cons_of_neg known
      have hoperands : s.operandsOf (word :: rest) = word :: s.operandsOf rest :=
        List.filter_cons_of_pos (by simpa using known)
      rw [if_neg known, hoptions, hoperands]
      by_cases looks : s.looksLikeOption word = true
      · rw [if_pos looks, List.find?_cons_of_pos looks]
      · rw [if_neg looks, List.find?_cons_of_neg looks]
        cases (s.operandsOf rest).find? s.looksLikeOption <;> rfl

/-- **What reading words comes to**, from the two lists. -/
theorem read_eq (s : Signature) (command : Text) (words : List Text) :
    s.read command words =
      match (s.operandsOf words).find? s.looksLikeOption with
      | some word => .error (.argument (.unknownOption command word))
      | none => do
        (s.checkCount command (s.operandsOf words).length).mapError .argument
        return ⟨s.optionsOf words,
          ← s.readOperands command (s.operandsOf words).length 0 (s.operandsOf words)⟩ := by
  rw [read, partition_eq]
  cases (s.operandsOf words).find? s.looksLikeOption <;> rfl

/-- **Words are read alike**, well or not, if they have the same options and the same operands. -/
theorem read_congr {words' : List Text} (options : s.optionsOf words' = s.optionsOf words)
    (operands : s.operandsOf words' = s.operandsOf words) :
    s.read command words' = s.read command words := by
  rw [read_eq, read_eq, options, operands]

/-! ## Operands -/

/-- **A word is read as one operand at most**: as the one that it is written as and that suits its
position. -/
theorem readOperand_eq_ok_iff {index count : Nat} {word : Text} {operand : Operand} :
    s.readOperand command index count word = .ok operand ↔
      operand.word = word ∧ operand.Suits (s.requirement index count) := by
  constructor
  · intro h
    refine ⟨?_, suits_of_readOperand h⟩
    unfold readOperand at h
    simp only at h
    split at h
    · cases h
      rfl
    · split at h
      · cases h
      · cases h
        rfl
      · split at h
        · cases h
          rfl
        · cases h
  · rintro ⟨rfl, suits⟩
    cases operand with
    | literal word =>
      have hfree : s.requirement index count = .free := suits
      simp [readOperand, hfree, Requirement.isPath, Operand.word]
    | path word kind =>
      obtain ⟨hpath, hword, hwildcard⟩ := suits
      cases kind with
      | single => simp [readOperand, hpath, hword, Requirement.isPath, Operand.word]
      | wildcard =>
        simp [readOperand, hword, hwildcard rfl, Requirement.isPath, Requirement.allowsWildcard,
          Operand.word]

/-- **Words are read as operands** if each is at its position. -/
theorem readOperands_eq_ok_iff {index count : Nat} {operands : List Operand} :
    s.readOperands command count index words = .ok operands ↔
      operands.map Operand.word = words ∧ ∀ (i : Nat) (operand : Operand),
        operands[i]? = some operand → operand.Suits (s.requirement (index + i) count) := by
  refine ⟨fun h => ⟨?_, (suits_of_readOperands h).2⟩, ?_⟩
  · induction words generalizing index operands with
    | nil =>
      cases h
      rfl
    | cons word rest ih =>
      obtain ⟨first, hfirst, h⟩ := Outcome.bind_eq_ok.1 h
      obtain ⟨others, hothers, h⟩ := Outcome.bind_eq_ok.1 h
      cases h
      rw [List.map_cons, (readOperand_eq_ok_iff.1 hfirst).1, ih hothers]
  · rintro ⟨rfl, suits⟩
    induction operands generalizing index with
    | nil => rfl
    | cons first others ih =>
      have hfirst : s.readOperand command index count first.word = .ok first :=
        readOperand_eq_ok_iff.2 ⟨rfl, suits 0 first rfl⟩
      have hothers : s.readOperands command count (index + 1) (others.map Operand.word) =
          .ok others := by
        refine ih fun i operand hi => ?_
        rw [Nat.add_assoc, Nat.add_comm 1]
        exact suits (i + 1) operand hi
      rw [List.map_cons, readOperands, hfirst, Outcome.ok_bind, hothers]
      rfl

/-! ## Arguments -/

/-- A number of operands passes if it lies between the fewest and the most. -/
theorem checkCount_eq_ok_iff {count : Nat} :
    s.checkCount command count = .ok () ↔
      s.arity.min ≤ count ∧ ∀ max ∈ s.arity.max, count ≤ max := by
  rw [Outcome.check_eq_ok_iff, fails_checkCount, not_or, Nat.not_lt]
  simp only [not_exists, not_and, Nat.not_lt, Option.mem_def]

/-- **Words are read as arguments** if and only if no operand looks like an option, the options are
those among the words, the operands are written as the other words in order, and the arguments suit
the signature. -/
theorem read_eq_ok_iff {arguments : Arguments} :
    s.read command words = .ok arguments ↔
      (∀ word ∈ s.operandsOf words, s.looksLikeOption word = false) ∧
        arguments.options = s.optionsOf words ∧
        arguments.operands.map Operand.word = s.operandsOf words ∧ arguments.Suits s := by
  constructor
  · intro h
    have suits : arguments.Suits s := suits_of_read h
    rw [read_eq] at h
    split at h
    · cases h
    · next hnone =>
      obtain ⟨_, -, h⟩ := Outcome.bind_eq_ok.1 h
      obtain ⟨operands, hoperands, h⟩ := Outcome.bind_eq_ok.1 h
      cases h
      exact ⟨by simpa using hnone, rfl, (readOperands_eq_ok_iff.1 hoperands).1, suits⟩
  · obtain ⟨options, operands⟩ := arguments
    rintro ⟨plain, rfl, hwords, suits⟩
    have hlength : (s.operandsOf words).length = operands.length := by
      rw [← hwords, List.length_map]
    have hnone : (s.operandsOf words).find? s.looksLikeOption = none := by simpa using plain
    have hcount : s.checkCount command operands.length = .ok () :=
      checkCount_eq_ok_iff.2 ⟨suits.enough, suits.notTooMany⟩
    have hoperands : s.readOperands command operands.length 0 (s.operandsOf words) =
        .ok operands := by
      refine readOperands_eq_ok_iff.2 ⟨hwords, fun i operand hi => ?_⟩
      rw [Nat.zero_add]
      exact suits.operands i operand hi
    rw [read_eq, hnone, hlength, hcount, hoperands]
    rfl

/-- **A word can stand at a position** where any word will do, where it names a single path, or
where it is a wildcard and one is allowed. -/
def Takes (s : Signature) (index count : Nat) (word : Text) : Prop :=
  s.requirement index count = .free ∨ WordKind.ofWord? word = some .single ∨
    WordKind.ofWord? word = some .wildcard ∧ s.requirement index count = .singleOrWildcard

/-- It can if it does not fail to be read there. -/
theorem takes_iff (command : Text) {index count : Nat} {word : Text} :
    s.Takes index count word ↔ ¬Outcome.Fails (s.readOperand command index count word) := by
  rw [fails_readOperand, Takes]
  by_cases free : s.requirement index count = .free
  · simp [free]
  · rcases WordKind.ofWord? word with _ | _ | _ <;> simp [free]

/-- **Words are read** if and only if no operand looks like an option, the number of operands is one
that the command takes, and each operand can stand at its position among the operands. -/
theorem exists_read_eq_ok_iff :
    (∃ arguments, s.read command words = .ok arguments) ↔
      (∀ word ∈ s.operandsOf words, s.looksLikeOption word = false) ∧
        s.checkCount command (s.operandsOf words).length = .ok () ∧
        ∀ (i : Nat) (word : Text), (s.operandsOf words)[i]? = some word →
          s.Takes i (s.operandsOf words).length word := by
  rw [Outcome.exists_eq_ok_iff, fails_read, not_or, not_or]
  refine and_congr ?_ (and_congr ?_ ?_)
  · rw [fails_partition]
    simp [operandsOf]
  · exact Outcome.check_eq_ok_iff.symm
  · simp only [fails_readOperands, takes_iff command, Nat.zero_add, not_exists, not_and]

end Signature

/-- **Reading the words behind a command's name loses none of them and does not care where options
stand.** The words are read if and only if no operand begins with a dash and goes on (where the
command has options at all), the number of operands lies between the fewest and the most, and each
operand can stand at its position among the operands. What is read are the options in order and the
operands in order, each as its position requires, so that together they are the words. And words
with the same options in the same order and the same operands in the same order are read as the
same, or fail in the same way. -/
theorem read_loses_no_word (s : Signature) (command : Text) (words : List Text) :
    ((∃ arguments, s.read command words = .ok arguments) ↔
      (∀ word ∈ s.operandsOf words, ¬(s.options ≠ [] ∧ ∃ c rest, word = '-' :: c :: rest)) ∧
        (s.arity.min ≤ (s.operandsOf words).length ∧
          ∀ max ∈ s.arity.max, (s.operandsOf words).length ≤ max) ∧
        ∀ (i : Nat) (word : Text), (s.operandsOf words)[i]? = some word →
          s.Takes i (s.operandsOf words).length word) ∧
      (∀ arguments, s.read command words = .ok arguments →
        arguments.options = s.optionsOf words ∧
          arguments.operands.map Operand.word = s.operandsOf words ∧
          (∀ (i : Nat) (operand : Operand), arguments.operands[i]? = some operand →
            operand.Suits (s.requirement i (s.operandsOf words).length)) ∧
          (arguments.options ++ arguments.operands.map Operand.word).Perm words) ∧
      ∀ words', s.optionsOf words' = s.optionsOf words → s.operandsOf words' = s.operandsOf words →
        s.read command words' = s.read command words := by
  refine ⟨?_, fun arguments h => ?_, fun words' => Signature.read_congr⟩
  · simp only [Signature.exists_read_eq_ok_iff, Signature.checkCount_eq_ok_iff,
      ← Signature.looksLikeOption_iff, Bool.not_eq_true]
  · obtain ⟨-, hoptions, hoperands, suits⟩ := Signature.read_eq_ok_iff.1 h
    have hlength : (s.operandsOf words).length = arguments.operands.length := by
      rw [← hoperands, List.length_map]
    refine ⟨hoptions, hoperands, ?_, ?_⟩
    · rw [hlength]
      exact suits.operands
    · rw [hoptions, hoperands]
      exact s.optionsOf_append_operandsOf_perm words

/-- An option between two operands. -/
example : Command.rm.signature.read "rm".toList ["a".toList, "-r".toList, "*.b".toList] =
    Command.rm.signature.read "rm".toList ["-r".toList, "a".toList, "*.b".toList] := by
  decide

end FileShell
