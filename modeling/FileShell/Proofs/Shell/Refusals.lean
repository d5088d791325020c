import FileShell.Proofs.Line.Defects
import FileShell.Proofs.Shell.Failures
import FileShell.Proofs.Volume.Removal

/-! # Lines that are refused

All stages of a line are read before the first of them is bound and run. So a line with a defect,
wherever it is, has done nothing when it is refused; only its records are made. What has been read
is never refused for its form again, so a failure of that kind always means that nothing happened.

* **`State.Undisturbed`** — nothing has happened but that records were made.
* **`runLine_refuses`** — lines with a defect, and lines that fail for their form. -/

namespace FileShell

/-- **Nothing has happened** between two states but that records were made. Where they are kept in
one of the files, that file is all that may have changed. -/
structure State.Undisturbed (s s' : State) : Prop where
  session : s'.session = s.session
  console : s'.console = s.console
  volume : Volume.Untouched s.volume s'.volume
  log : s'.volume.log = s.volume.log
  /-- Where the records are kept in none of the files, no file has changed. -/
  unlogged : s.volume.log = none → s'.volume = s.volume

namespace State.Undisturbed

variable {s s' : State}

theorem refl (s : State) : s.Undisturbed s := ⟨rfl, rfl, .refl s.volume, rfl, fun _ => rfl⟩

/-- One more record disturbs nothing. -/
theorem logged (h : s.Undisturbed s') (level : Level) (t : Text) :
    s.Undisturbed (s'.logged level t) where
  session := h.session
  console := h.console
  volume := h.volume.logged _
  log := (s'.volume.log_logged _).trans h.log
  unlogged hnone := by
    have hnone' : s'.volume.log = none := h.log.trans hnone
    rw [← h.unlogged hnone]
    exact Volume.logged_of_log_eq_none hnone' _

end State.Undisturbed

variable {env : Environment} {line : Text} {s s' : State} {e : Failure}

/-- A line that is not read makes two records. -/
theorem undisturbed_of_parse_eq_error (h : env.config.parse line = .error e)
    (hrun : runLine env line s = .error e s') : s.Undisturbed s' := by
  rw [runLine_of_parse_eq_error h] at hrun
  cases hrun
  exact ((State.Undisturbed.refl s).logged _ _).logged _ _

/-- **A failure of reading comes from the line's text alone**, since what has been read fails in
another way. -/
theorem parse_eq_error_of_runLine (hrun : runLine env line s = .error e s')
    (reading : e.phase? = some .reading) : env.config.parse line = .error e := by
  rcases exists_of_runLine_eq_error hrun with hparse | ⟨stages, s₁, s₂, hparse, hexecute⟩
  · exact hparse
  · exfalso
    have hwell : ∀ stage ∈ stages, stage.WellRead env.config := (wellRead_of_parse hparse).2.1
    obtain ⟨phase, hne, hphase⟩ :=
      exists_phase_of_runStages (fun stage hmem => (hwell stage hmem).arguments) hexecute
    rw [reading] at hphase
    exact hne (Option.some.inj hphase).symm

/-- **A line is read whole before anything happens.** If any of its parts has a defect, the line
fails for a cause that is found by reading, and neither the files nor the session nor the console
has changed. And whenever a line fails because it has no form that can be read, it has such a
defect, and nothing has changed either. -/
theorem runLine_refuses (env : Environment) (line : Text) (s : State) :
    (env.config.Defective line →
      ∃ e s', runLine env line s = .error e s' ∧ e.phase? = some .reading ∧ s.Undisturbed s') ∧
    ∀ cause s', runLine env line s = .error (.line cause) s' →
      env.config.Defective line ∧ s.Undisturbed s' := by
  constructor
  · intro defective
    obtain ⟨e, hparse⟩ := Config.fails_parse_iff.2 defective
    have hrun := runLine_of_parse_eq_error hparse s
    exact ⟨e, _, hrun, reading_of_parse hparse, undisturbed_of_parse_eq_error hparse hrun⟩
  · intro cause s' hrun
    have hparse : env.config.parse line = .error (.line cause) :=
      parse_eq_error_of_runLine hrun rfl
    exact ⟨Config.fails_parse_iff.1 ⟨_, hparse⟩, undisturbed_of_parse_eq_error hparse hrun⟩

/-- An option that a later stage does not know, and a later stage without a word: in both lines the
first stage would have made a directory. -/
theorem runLine_refuses_mkdir :
    let s : State := .atRoot ⟨[]⟩
    let unknown : Text := "mkdir d | rm -x d".toList
    let wordless : Text := "mkdir d | ''".toList
    (Environment.plain.config.Defective unknown ∧
        ∃ e s', runLine .plain unknown s = .error e s' ∧ s'.volume = s.volume) ∧
      Environment.plain.config.Defective wordless ∧
        ∃ s', runLine .plain wordless s = .error (.line .noCommand) s' ∧ s'.volume = s.volume := by
  intro s unknown wordless
  have hread : tokensOf " rm -x d".toList =
      .ok [.word "rm".toList, .word "-x".toList, .word "d".toList] := by decide
  have hoption : Command.rm.signature.Defect ["-x".toList, "d".toList] :=
    .unknownOption List.mem_cons_self (by decide) (by decide)
  have hunknown : Environment.plain.config.Defective unknown :=
    ⟨["mkdir d ".toList], " rm -x d".toList, [], by decide,
      .command hread rfl (.words rfl hoption)⟩
  obtain ⟨e, s₁, hrun, -, hs₁⟩ := (runLine_refuses .plain unknown s).1 hunknown
  have hparse : Environment.plain.config.parse wordless = .error (.line .noCommand) := by decide
  have hwordless := runLine_of_parse_eq_error hparse s
  obtain ⟨hdefective, hs₂⟩ := (runLine_refuses .plain wordless s).2 _ _ hwordless
  exact ⟨⟨hunknown, e, s₁, hrun, hs₁.unlogged rfl⟩, hdefective, _, hwordless, hs₂.unlogged rfl⟩

end FileShell
