import FileShell.Proofs.Command.Registry
import FileShell.Proofs.Settings.Overlays
import FileShell.Proofs.Shell.Run
import Mathlib.Tactic.TFAE

/-! # The commands that can be called

Whether a command can be called is asked in several places: when a line is read, when the catalogue
is put together, and when help is asked for on a word. All of them know the same commands.

* **`lookUp_of_parse`** — a line is refused for a command only if looking that command up fails.
* **`commands_known`** — the places compared. -/

namespace FileShell

variable {c : Config} {w : Text} {e : Failure}

/-! ## Commands that are refused -/

/-- **The command that a failure is about**: one that is unknown or switched off. -/
def Failure.command? : Failure → Option Text
  | .argument (.unknownCommand w) | .argument (.disabledCommand w) => some w
  | _ => none

/-- The words behind a command are never refused for a command. -/
theorem Failure.OfWords.command?_eq_none (h : e.OfWords) : e.command? = none := by
  cases h <;> rfl

/-- Looking a command up fails for that command. -/
theorem command?_of_lookUp {cause : ArgumentError} (h : c.lookUp w = .error cause) :
    (Failure.argument cause).command? = some w := by
  rcases Config.lookUp_eq_error h with rfl | rfl <;> rfl

/-- **Stages are refused for a command** only if looking it up fails. -/
theorem lookUp_of_readStages {texts : List Text} (h : c.readStages texts = .error e)
    (about : e.command? = some w) : ∃ cause, c.lookUp w = .error cause ∧ e = .argument cause := by
  induction texts with
  | nil => cases h
  | cons text rest ih =>
    rw [Config.readStages] at h
    -- the form of the stage, its redirection, its command and words, and then the other stages
    rcases Outcome.bind_eq_error.1 h with h | ⟨draft, -, h⟩
    · obtain ⟨cause, -, rfl⟩ := Outcome.mapError_eq_error_iff.1 h
      cases about
    rcases Outcome.bind_eq_error.1 h with h | ⟨_, -, h⟩
    · obtain ⟨cause, -, rfl⟩ := Outcome.mapError_eq_error_iff.1 h
      cases about
    rcases Outcome.bind_eq_error.1 h with h | ⟨stage, -, h⟩
    · rcases Outcome.bind_eq_error.1 h with h | ⟨command, -, h⟩
      · obtain ⟨cause, hcause, rfl⟩ := Outcome.mapError_eq_error_iff.1 h
        obtain rfl : draft.command = w :=
          Option.some.inj ((command?_of_lookUp hcause).symm.trans about)
        exact ⟨cause, hcause, rfl⟩
      · rcases Outcome.bind_eq_error.1 h with h | ⟨_, -, h⟩
        · rw [(ofWords_of_read h).command?_eq_none] at about
          cases about
        · cases h
    rcases Outcome.bind_eq_error.1 h with h | ⟨_, -, h⟩
    · exact ih h
    · cases h

/-- **A line is refused for a command** only if looking it up fails. -/
theorem lookUp_of_parse {line : Text} (h : c.parse line = .error e) (about : e.command? = some w) :
    ∃ cause, c.lookUp w = .error cause ∧ e = .argument cause := by
  rw [Config.parse] at h
  rcases Outcome.bind_eq_error.1 h with h | ⟨texts, -, h⟩
  · obtain ⟨cause, -, rfl⟩ := Outcome.mapError_eq_error_iff.1 h
    cases about
  · exact lookUp_of_readStages h about

/-- **The first word of a line**, where nothing is wrong with the line up to there: it can be cut
into stages, and the form of the first stage is in order. -/
def Config.FirstWord (c : Config) (line w : Text) : Prop :=
  ∃ text rest draft, stageTexts c.settings.quoteAwareBars line = .ok (text :: rest) ∧
    Draft.ofText text = .ok draft ∧ checkRedirection rest.isEmpty draft = .ok () ∧
    draft.command = w

/-- **A line is refused for its first word** before anything else in it is looked at. -/
theorem parse_of_lookUp {line : Text} {cause : ArgumentError} (first : c.FirstWord line w)
    (h : c.lookUp w = .error cause) : c.parse line = .error (.argument cause) := by
  obtain ⟨text, rest, draft, cut, read, placed, rfl⟩ := first
  rw [Config.parse, cut]
  change c.readStages (text :: rest) = _
  rw [Config.readStages, read]
  change ((Config.checkRedirection rest.isEmpty draft).mapError Failure.line >>= _) = _
  rw [placed]
  change (c.readStage draft >>= _) = _
  rw [Config.readStage, h]
  rfl

/-! ## The catalogue -/

/-- An entry of the catalogue has the name of a command that is not switched off. -/
theorem exists_entry_iff :
    (∃ entry ∈ c.catalogue, entry.name = w) ↔
      (∃ command : Command, command.name = w) ∧ w ∉ c.disabled := by
  have henables : ∀ command : Command, c.enables command = true ↔ command.name ∉ c.disabled := by
    intro command
    rw [Config.enables, Bool.not_eq_true', ← Bool.not_eq_true, Config.isDisabled_iff]
  simp only [Config.mem_catalogue, henables]
  constructor
  · rintro ⟨entry, hon, rfl⟩
    exact ⟨⟨entry, rfl⟩, hon⟩
  · rintro ⟨⟨command, rfl⟩, hon⟩
    exact ⟨command, hon, rfl⟩

/-- A word that the catalogue has an entry for is found, and no other. -/
theorem exists_lookUp_iff :
    (∃ command, c.lookUp w = .ok command) ↔ ∃ entry ∈ c.catalogue, entry.name = w := by
  simp only [Config.lookUp_eq_ok, Config.mem_catalogue, and_comm]

/-- A word is found unless it is refused as switched off or as unknown. -/
theorem exists_lookUp_iff_not_refused :
    (∃ command, c.lookUp w = .ok command) ↔
      c.lookUp w ≠ .error (.disabledCommand w) ∧ c.lookUp w ≠ .error (.unknownCommand w) := by
  rcases c.lookUp_cases w with ⟨_, h, -⟩ | ⟨_, h, -⟩ | ⟨h, -⟩ <;> simp [h]

/-! ## Help on a word -/

/-- Help on a word is given if the catalogue has an entry for it. -/
theorem topics_eq_ok_iff {command : Command} {call : Call} (asked : call.literal? 0 = some w) :
    (∃ commands, topics c command call = .ok commands) ↔
      ∃ entry ∈ c.catalogue, entry.name = w := by
  simp only [topics, asked]
  generalize hfind : c.catalogue.find? _ = found
  rcases found with _ | entry
  · simp only [reduceCtorEq, exists_false, false_iff]
    rintro ⟨entry, hmem, hname⟩
    exact List.find?_eq_none.1 hfind entry hmem (decide_eq_true hname)
  · simp only [Except.ok.injEq, exists_eq', true_iff]
    have hname : entry.name = w := by simpa using List.find?_some hfind
    exact ⟨entry, List.mem_of_find?_eq_some hfind, hname⟩

/-- A description succeeds if its topics can be found. -/
theorem describe_eq_ok_iff {command : Command} {entry : Command → Text} {call : Call} {s : State} :
    (∃ output left, describe c command entry call s = .ok output left) ↔
      ∃ commands, topics c command call = .ok commands := by
  rw [describe]
  rcases topics c command call with cause | commands
  · simp [Shell.ofExcept]
  · simp [Shell.ofExcept]

/-- Without operands everything in the catalogue is described, in its order. -/
theorem describe_of_operands_eq_nil {command : Command} {entry : Command → Text} {call : Call}
    {s : State} (bare : call.operands = []) :
    describe c command entry call s = .ok (Text.joined ['\n'] (c.catalogue.map entry)) s := by
  have hliteral : call.literal? 0 = none := by rw [Call.literal?, bare]; rfl
  rw [describe, topics, hliteral]
  rfl

/-! ## All places compared -/

/-- **The same commands are known everywhere.** A word is the name of a command that is not switched
off if and only if the catalogue has an entry of that name, if and only if help on it succeeds, and
so does its synopsis, and if and only if looking it up gives a command, which is the same as that it
is refused neither as switched off nor as unknown.

Lines agree with this: one that begins with the word is refused for it exactly if the word is not
known, and no line whatever is refused for a word that is known.

The catalogue itself stands in the strict order of names, so it has no name twice, and it is what
the commands that are left are sorted into. Help and synopses without an operand are its entries in
that order. -/
theorem commands_known (env : Environment) {w : Text} {call : Call}
    (asked : call.literal? 0 = some w) (s : State) :
    [ (∃ command : Command, command.name = w) ∧ w ∉ env.config.disabled,
      ∃ entry ∈ env.config.catalogue, entry.name = w,
      ∃ output left, Command.help.run env call s = .ok output left,
      ∃ output left, Command.args.run env call s = .ok output left,
      ∃ command, env.config.lookUp w = .ok command,
      env.config.lookUp w ≠ .error (.disabledCommand w) ∧
        env.config.lookUp w ≠ .error (.unknownCommand w) ].TFAE ∧
    (∀ line, env.config.FirstWord line w →
      ((∃ entry ∈ env.config.catalogue, entry.name = w) ↔
        env.config.parse line ≠ .error (.argument (.disabledCommand w)) ∧
          env.config.parse line ≠ .error (.argument (.unknownCommand w)))) ∧
    (∀ line e, env.config.parse line = .error e → e.command? = some w →
      ¬∃ entry ∈ env.config.catalogue, entry.name = w) ∧
    env.config.catalogue.Pairwise (·.name < ·.name) ∧
    (env.config.catalogue.map Command.name).Nodup ∧
    (∀ kept : List Command, kept.Nodup →
      (∀ command, command ∈ kept ↔ env.config.enables command = true) →
      Text.sortBy Command.name kept = env.config.catalogue) ∧
    ∀ bare : Call, bare.operands = [] →
      Command.help.run env bare s =
          .ok (Text.joined ['\n'] (env.config.catalogue.map fun entry =>
            entry.usage ++ "\n    ".toList ++ entry.summary)) s ∧
        Command.args.run env bare s =
          .ok (Text.joined ['\n'] (env.config.catalogue.map Command.usage)) s := by
  have hrefused : ∀ line e, env.config.parse line = .error e → e.command? = some w →
      ¬∃ entry ∈ env.config.catalogue, entry.name = w := by
    intro line e hparse about known
    obtain ⟨command, hcommand⟩ := exists_lookUp_iff.2 known
    obtain ⟨cause, hcause, -⟩ := lookUp_of_parse hparse about
    rw [hcommand] at hcause
    cases hcause
  refine ⟨?_, ?_, hrefused, Config.pairwise_catalogue _, Config.nodup_catalogue _,
    fun _ => Config.sortBy_eq_catalogue, fun bare hbare =>
      ⟨describe_of_operands_eq_nil hbare, describe_of_operands_eq_nil hbare⟩⟩
  -- everything is compared with the entries of the catalogue
  · tfae_have 2 ↔ 1 := exists_entry_iff
    tfae_have 3 ↔ 2 := describe_eq_ok_iff.trans (topics_eq_ok_iff asked)
    tfae_have 4 ↔ 2 := describe_eq_ok_iff.trans (topics_eq_ok_iff asked)
    tfae_have 5 ↔ 2 := exists_lookUp_iff
    tfae_have 5 ↔ 6 := exists_lookUp_iff_not_refused
    tfae_finish
  · intro line first
    constructor
    · intro known
      exact ⟨fun h => hrefused line _ h rfl known, fun h => hrefused line _ h rfl known⟩
    · rintro ⟨on, found⟩
      rw [← exists_lookUp_iff, exists_lookUp_iff_not_refused]
      exact ⟨fun h => on (parse_of_lookUp first h), fun h => found (parse_of_lookUp first h)⟩

/-- A command that is switched off, twice and among names of nothing, is gone from everywhere; one
that is not can be asked about. -/
theorem commands_known_switched_off :
    let env : Environment :=
      { Environment.plain with
        config := { Config.default with
          disabled := ["rm".toList, "nope".toList, "rm".toList] } }
    ¬(∃ output left, Command.help.run env ⟨[], [.literal "rm".toList], none⟩ (.atRoot .empty) =
        .ok output left) ∧
      ¬(env.config.parse "rm a | ls".toList ≠ .error (.argument (.disabledCommand "rm".toList)) ∧
        env.config.parse "rm a | ls".toList ≠ .error (.argument (.unknownCommand "rm".toList))) ∧
      ∃ output left, Command.args.run env ⟨[], [.literal "ls".toList], none⟩ (.atRoot .empty) =
        .ok output left := by
  intro env
  have asked : ∀ w, Call.literal? ⟨[], [.literal w], none⟩ 0 = some w := fun _ => rfl
  obtain ⟨off, line, -⟩ := commands_known env (asked "rm".toList) (.atRoot .empty)
  obtain ⟨on, -⟩ := commands_known env (asked "ls".toList) (.atRoot .empty)
  have gone : ¬∃ entry ∈ env.config.catalogue, entry.name = "rm".toList := by decide +kernel
  have first : env.config.FirstWord "rm a | ls".toList "rm".toList :=
    ⟨"rm a".toList, ["ls".toList], ⟨"rm".toList, ["a".toList], none⟩, by decide +kernel⟩
  refine ⟨fun h => gone ((off.out 1 2).2 h), fun h => gone ((line _ first).2 h), ?_⟩
  exact (on.out 1 3).1 (by decide +kernel)

end FileShell
