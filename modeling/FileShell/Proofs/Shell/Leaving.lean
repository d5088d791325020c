import FileShell.Proofs.Shell.Refusals

/-! # Leaving the shell

A line asks to leave the shell when the command for it is reached, and for no other reason: no other
command, no words that cannot be bound and no output that cannot be delivered end a line in this
way. What stands behind that command is never run, and its own output goes nowhere.

* **`runStage_eq_halt_iff`** — one stage.
* **`runStages_eq_halt_iff`** — stages in a row, by induction on those that come first.
* **`runLine_eq_halt_iff`** — a whole line. -/

namespace FileShell

variable {env : Environment} {total number : Nat} {stage : Stage} {stages : List Stage}
  {piped : Option Text} {s s' : State}

/-! ## One stage -/

/-- The command takes no operands, so its stage is bound whatever there is. -/
theorem bindStage_exit (exits : stage.command = .exit)
    (suits : stage.arguments.Suits stage.command.signature) (env : Environment)
    (piped : Option Text) (s : State) :
    bindStage env stage piped s = .ok ⟨stage.arguments.options, [], piped⟩ s := by
  obtain ⟨command, ⟨options, operands⟩, redirection⟩ := stage
  obtain rfl : command = .exit := exits
  have hlength : operands.length ≤ 0 := suits.notTooMany 0 rfl
  obtain rfl : operands = [] := List.eq_nil_of_length_eq_zero (Nat.le_zero.1 hlength)
  rfl

/-- **A stage asks to leave exactly if its command is the one for it**, and has then done nothing but
make its record. -/
theorem runStage_eq_halt_iff (suits : stage.arguments.Suits stage.command.signature) :
    runStage env total number stage piped s = .error .halt s' ↔
      stage.command = .exit ∧ s' = s.logged .info (stageRecord number total .exit) := by
  constructor
  · intro h
    -- neither binding words nor running a command fails in this way
    rcases phase_of_runStage suits h with hphase | hphase | ⟨exits, -, rfl⟩
    · cases hphase
    · cases hphase
    · exact ⟨exits, by rw [exits]⟩
  · rintro ⟨exits, rfl⟩
    rw [runStage_of_bindStage (bindStage_exit exits suits env piped s), exits]
    rfl

/-! ## Stages in a row -/

/-- Stages ask to leave with the first of them, or with a later one after the first has gone through.
The delivery of an output is no such request. -/
theorem runStages_cons_eq_halt_iff {rest : List Stage} :
    runStages env total number piped (stage :: rest) s = .error .halt s' ↔
      runStage env total number stage piped s = .error .halt s' ∨
        ∃ output s₁, runStage env total number stage piped s = .ok output s₁ ∧
          runStages env total (number + 1) (some output) rest s₁ = .error .halt s' := by
  have hdeliver (output : Text) (sink? : Option Sink) (s₁ : State) :
      deliver output sink? s₁ ≠ .error .halt s' := by
    intro h
    have hphase : Failure.halt.phase? = some .running := failsIn_deliver _ _ s₁ .halt s' h
    cases hphase
  rw [runStages_cons_eq_error]
  simp only [hdeliver, and_false, or_false]

/-- **Stages ask to leave exactly if one of them has the command for it** and all before it have
gone through. -/
theorem runStages_eq_halt_iff
    (suits : ∀ stage ∈ stages, stage.arguments.Suits stage.command.signature) :
    runStages env total number piped stages s = .error .halt s' ↔
      ∃ before stage after fed left, stages = before ++ stage :: after ∧ stage.command = .exit ∧
        feedStages env total number piped before s = .ok fed left ∧
        s' = left.logged .info (stageRecord (number + before.length) total .exit) := by
  constructor
  · intro h
    -- by induction on the stages; each that goes through is one more before the one that leaves
    induction stages generalizing number piped s with
    | nil => cases h
    | cons stage rest ih =>
      have hsuits : stage.arguments.Suits stage.command.signature := suits stage List.mem_cons_self
      rcases runStages_cons_eq_halt_iff.1 h with hhalt | ⟨output, s₁, hrun, hlater⟩
      · obtain ⟨exits, hs'⟩ := (runStage_eq_halt_iff hsuits).1 hhalt
        exact ⟨[], stage, rest, piped, s, rfl, exits, rfl, hs'⟩
      · obtain ⟨before, exit, after, fed, left, rfl, exits, hfed, hs'⟩ :=
          ih (fun other hmem => suits other (List.mem_cons_of_mem _ hmem)) hlater
        have hfeed : feedStages env total number piped (stage :: before) s = .ok fed left := by
          rw [feedStages, Shell.bind_of_ok hrun, hfed]
        have hnumber : number + (stage :: before).length = number + 1 + before.length := by
          rw [List.length_cons]
          omega
        exact ⟨stage :: before, exit, after, fed, left, rfl, exits, hfeed, by rw [hs', hnumber]⟩
  · rintro ⟨before, stage, after, fed, left, rfl, exits, hfed, rfl⟩
    have hsuits : stage.arguments.Suits stage.command.signature := suits stage (by simp)
    rw [runStages_append_cons, Shell.bind_of_ok hfed, runStages_cons_eq_halt_iff]
    exact .inl ((runStage_eq_halt_iff hsuits).2 ⟨exits, rfl⟩)

/-! ## Lines -/

/-- A line that was read asks to leave if its stages do; no record of a failure is made then. -/
theorem runLine_eq_halt_iff_execute {line : Text} (h : env.config.parse line = .ok stages) :
    runLine env line s = .error .halt s' ↔
      execute env stages (s.logged .info (lineRecord line)) = .error .halt s' := by
  rw [runLine_of_parse_eq_ok h]
  rcases execute env stages (s.logged .info (lineRecord line)) with ⟨_, s₁⟩ | ⟨e, s₁⟩
  · simp
  · cases e <;> simp

/-- **A line reaches a stage** that asks to leave: it can be read, the stages before that one have
gone through, and they have left this state. -/
structure Environment.LeavesAt (env : Environment) (line : Text) (s : State)
    (before : List Stage) (stage : Stage) (after : List Stage) (left : State) : Prop where
  read : env.config.parse line = .ok (before ++ stage :: after)
  exits : stage.command = .exit
  passed : ∃ fed, feedStages env (before ++ stage :: after).length 1 none before
    (s.logged .info (lineRecord line)) = .ok fed left

/-- **To leave means to reach the command for it, and nothing else.** A line asks to leave exactly if
it can be read, one of its stages has that command, and all stages before it have been bound and
run. What they have left is what remains: the files, the session and the console are as they were
then, so no later stage has run, nothing was shown and nothing was written to a redirection. -/
theorem runLine_eq_halt_iff (env : Environment) (line : Text) (s s' : State) :
    runLine env line s = .error .halt s' ↔
      ∃ before stage after left, env.LeavesAt line s before stage after left ∧
        s' = left.logged .info
          (stageRecord (before.length + 1) (before ++ stage :: after).length .exit) ∧
        left.Undisturbed s' := by
  constructor
  · intro h
    rcases hparse : env.config.parse line with e | stages
    · -- a line that cannot be read fails for a cause of its own
      rw [runLine_of_parse_eq_error hparse] at h
      cases h
      cases reading_of_parse hparse
    · have hwell : ∀ stage ∈ stages, stage.WellRead env.config := (wellRead_of_parse hparse).2.1
      rw [runLine_eq_halt_iff_execute hparse, execute] at h
      obtain ⟨before, stage, after, fed, left, rfl, exits, hfed, hs'⟩ :=
        (runStages_eq_halt_iff fun stage hmem => (hwell stage hmem).arguments).1 h
      rw [Nat.add_comm] at hs'
      refine ⟨before, stage, after, left, ⟨hparse, exits, fed, hfed⟩, hs', ?_⟩
      rw [hs']
      exact (State.Undisturbed.refl left).logged _ _
  · rintro ⟨before, stage, after, left, ⟨hparse, exits, fed, hfed⟩, hs', -⟩
    have hwell : ∀ stage' ∈ before ++ stage :: after, stage'.WellRead env.config :=
      (wellRead_of_parse hparse).2.1
    rw [runLine_eq_halt_iff_execute hparse, execute]
    refine (runStages_eq_halt_iff fun stage' hmem => (hwell stage' hmem).arguments).2
      ⟨before, stage, after, fed, left, rfl, exits, hfed, ?_⟩
    rw [Nat.add_comm, hs']

/-- The second of three stages leaves, and the directory of the third one is not made. -/
theorem runLine_eq_halt_iff_pwd :
    let line : Text := "pwd | exit | mkdir d".toList
    let s : State := .atRoot ⟨[]⟩
    ∃ s', runLine .plain line s = .error .halt s' ∧ s'.volume = s.volume ∧ s'.console = s.console := by
  intro line s
  let pwd : Stage := ⟨.pwd, ⟨[], []⟩, none⟩
  let exit : Stage := ⟨.exit, ⟨[], []⟩, none⟩
  let mkdir : Stage := ⟨.mkdir, ⟨[], [.path "d".toList .single]⟩, none⟩
  have hparse : Environment.plain.config.parse line = .ok ([pwd] ++ exit :: [mkdir]) := by
    decide +kernel
  obtain ⟨left, hfed, hvolume, hconsole⟩ : ∃ left,
      feedStages .plain 3 1 none [pwd] (s.logged .info (lineRecord line)) = .ok (some ['/']) left ∧
        left.volume = s.volume ∧ left.console = s.console := ⟨_, rfl, rfl, rfl⟩
  have hrun := (runLine_eq_halt_iff .plain line s _).2
    ⟨[pwd], exit, [mkdir], left, ⟨hparse, rfl, _, hfed⟩, rfl, (State.Undisturbed.refl left).logged _ _⟩
  have hlog : left.volume.log = none := by
    rw [hvolume]
    rfl
  exact ⟨_, hrun, (Volume.logged_of_log_eq_none hlog _).trans hvolume, hconsole⟩

end FileShell
