import FileShell.Proofs.Command.Binding
import FileShell.Proofs.Command.Remove
import FileShell.Proofs.Command.Transfer
import FileShell.Proofs.Shell.Redirection

/-! # When failures arise

Every phase of a line fails with causes of its own: reading it, binding the words of a stage, and
running a command. What has been read never fails as reading does (`exists_phase_of_runStages`).
One cause belongs to no phase, since a command that copies or moves is never called without a path;
no line fails with it (`phase?_ne_none_of_runLine`). -/

namespace FileShell

namespace Shell

variable {α β : Type} {phase : Phase} {x : Shell α} {f : α → Shell β}

/-- **A run fails in one phase only**, from whatever state it begins. -/
def FailsIn (phase : Phase) (x : Shell α) : Prop :=
  ∀ s e s', x s = .error e s' → e.phase? = some phase

/-- A run that never fails fails in no phase. -/
theorem failsIn_of_ok (h : ∀ s, ∃ a s', x s = .ok a s') : FailsIn phase x := by
  intro s e s' hrun
  obtain ⟨a, s₁, hok⟩ := h s
  rw [hok] at hrun
  cases hrun

theorem failsIn_pure (a : α) : FailsIn phase (pure a : Shell α) := failsIn_of_ok fun s => ⟨a, s, rfl⟩

theorem failsIn_stat (p : Path) : FailsIn phase (stat p) := failsIn_of_ok fun s => ⟨_, s, rfl⟩

theorem failsIn_look (question : Volume → α) : FailsIn phase (look question) :=
  failsIn_of_ok fun s => ⟨_, s, rfl⟩

theorem failsIn_converse (talk : Console → α × Console) : FailsIn phase (converse talk) :=
  failsIn_of_ok fun _ => ⟨_, _, rfl⟩

theorem failsIn_record (level : Level) (t : Text) : FailsIn phase (record level t) :=
  failsIn_of_ok fun _ => ⟨_, _, rfl⟩

theorem failsIn_throw {e : Failure} (h : e.phase? = some phase) :
    FailsIn phase (throw e : Shell α) := by
  intro s e' s' hrun
  cases hrun
  exact h

theorem failsIn_ofExcept {r : Except Failure α} (h : ∀ e, r = .error e → e.phase? = some phase) :
    FailsIn phase (ofExcept r) := by
  intro s e s' hrun
  rw [ofExcept_apply] at hrun
  split at hrun
  · cases hrun
  · cases hrun
    exact h e rfl

/-- **A run made of two fails as its parts do**; the second one gets what the first can give. -/
theorem FailsIn.bind (hx : FailsIn phase x)
    (hf : ∀ a, (∃ s s', x s = .ok a s') → FailsIn phase (f a)) : FailsIn phase (x >>= f) := by
  intro s e s' h
  rcases hrun : x s with ⟨a, s₁⟩ | ⟨e₁, s₁⟩
  · rw [bind_of_ok hrun] at h
    exact hf a ⟨s, s₁, hrun⟩ s₁ e s' h
  · rw [bind_of_error hrun] at h
    cases h
    exact hx s e s' hrun

/-- An attempt never fails; what is done next may fail, whether the change failed or not. -/
theorem failsIn_attempt_bind {change : Volume → Except FileError Unit × Volume}
    {f : Except FileError Unit → Shell β} (failed : ∀ e, FailsIn phase (f (.error e)))
    (changed : FailsIn phase (f (.ok ()))) : FailsIn phase (attempt change >>= f) := by
  have hattempt : FailsIn phase (attempt change) := failsIn_of_ok fun _ => ⟨_, _, rfl⟩
  refine hattempt.bind fun outcome _ => ?_
  cases outcome with
  | error e => exact failed e
  | ok _ => exact changed

/-- What cannot be done to a path is found out while a command runs. -/
theorem failsIn_cannot (command : Command) (action : Action) (path : Path) (obstacle : Obstacle) :
    FailsIn .running (cannot command action path obstacle : Shell α) :=
  failsIn_throw rfl

end Shell

open Shell

/-! ## Binding -/

/-- An operand that cannot be bound is no directory, or a wildcard without a match. -/
theorem binding_of_bindOperand {session : Session} {v : Volume} {scope : MatchScope}
    {command : Text} {requirement : Requirement} {operand : Operand} {e : Failure}
    (h : session.bindOperand v scope command requirement operand = .error e) :
    e.phase? = some .binding := by
  rcases operand with word | ⟨word, kind⟩
  · cases h
  cases kind with
  | single =>
    simp only [Session.bindOperand] at h
    split at h
    · cases h
      rfl
    · cases h
  | wildcard =>
    simp only [Session.bindOperand] at h
    split at h
    · next cause hexpand =>
      cases h
      rw [Session.eq_noMatch_of_expand hexpand]
      rfl
    · cases h

/-- Operands cannot be bound because of one of them. -/
theorem binding_of_bindOperands {session : Session} {v : Volume} {scope : MatchScope}
    {command : Text} {signature : Signature} {count index : Nat} {operands : List Operand}
    {e : Failure}
    (h : session.bindOperands v scope command signature count index operands = .error e) :
    e.phase? = some .binding := by
  induction operands generalizing index with
  | nil => cases h
  | cons operand rest ih =>
    rw [Session.bindOperands] at h
    rcases Outcome.bind_eq_error.1 h with h | ⟨_, -, h⟩
    · exact binding_of_bindOperand h
    · rcases Outcome.bind_eq_error.1 h with h | ⟨_, -, h⟩
      · exact ih h
      · cases h

/-- The rule for destinations is broken by what the words name. -/
theorem binding_of_checkLayout {v : Volume} {command : Text} {signature : Signature}
    {operands : List Operand} {bound : List Bound} {cause : ArgumentError}
    (h : Session.checkLayout v command signature operands bound = .error cause) :
    (Failure.argument cause).phase? = some .binding := by
  unfold Session.checkLayout at h
  split at h
  · unfold Session.checkDestination at h
    simp only at h
    split at h
    · cases h
      rfl
    · split at h
      · cases h
        rfl
      · cases h
  · cases h

/-- **Words that cannot be bound** do not name what they should. -/
theorem binding_of_bind {session : Session} {v : Volume} {scope : MatchScope} {command : Text}
    {signature : Signature} {arguments : Arguments} {piped : Option Text} {e : Failure}
    (h : session.bind v scope command signature arguments piped = .error e) :
    e.phase? = some .binding := by
  rcases Outcome.bind_eq_error.1 h with h | ⟨bound, -, h⟩
  · exact binding_of_bindOperands h
  · rcases Outcome.bind_eq_error.1 h with h | ⟨_, -, h⟩
    · obtain ⟨cause, hcause, rfl⟩ := Outcome.mapError_eq_error_iff.1 h
      exact binding_of_checkLayout hcause
    · cases h

/-- A stage that cannot be bound fails because of what its words name. -/
theorem failsIn_bindStage (env : Environment) (stage : Stage) (piped : Option Text) :
    FailsIn .binding (bindStage env stage piped) :=
  fun s => failsIn_ofExcept (fun _ => binding_of_bind) s

/-! ## Running -/

theorem failsIn_describe (config : Config) (command : Command) (entry : Command → Text)
    (call : Call) : FailsIn .running (describe config command entry call) := by
  refine failsIn_ofExcept fun e he => ?_
  unfold topics at he
  split at he
  · cases he
  · next cause hcause =>
    cases he
    split at hcause
    · cases hcause
    · split at hcause
      · cases hcause
      · cases hcause
        rfl

theorem failsIn_cat (stopWord : Text) (call : Call) : FailsIn .running (cat stopWord call) := by
  unfold cat
  split
  · split
    · exact failsIn_pure _
    · refine (failsIn_converse _).bind fun _ _ => (failsIn_converse _).bind fun typed _ => ?_
      cases typed with
      | ok text => exact failsIn_pure text
      | error reason => exact failsIn_throw rfl
  · refine (failsIn_look _).bind fun texts _ => failsIn_ofExcept fun e he => ?_
    obtain ⟨cause, -, rfl⟩ := Outcome.mapError_eq_error_iff.1 he
    rfl

theorem failsIn_changeDirectory (call : Call) : FailsIn .running (changeDirectory call) := by
  intro s e s' h
  unfold changeDirectory at h
  split at h
  · cases h
  · cases h
    rfl

theorem failsIn_list (call : Call) : FailsIn .running (list call) := by
  intro s e s' h
  unfold list at h
  split at h
  · cases h
  · cases h
    rfl

theorem failsIn_makeDirectories (call : Call) : FailsIn .running (makeDirectories call) := by
  refine FailsIn.bind ?_ fun _ _ => failsIn_pure _
  induction call.paths with
  | nil => exact failsIn_pure _
  | cons path rest ih =>
    have hmade : FailsIn .running
        (record .info (madeText path) >>= fun _ => makeEach rest) :=
      (failsIn_record _ _).bind fun _ _ => ih
    refine (failsIn_stat path).bind fun presence _ => ?_
    cases presence with
    | missing => exact failsIn_attempt_bind (fun e => failsIn_cannot _ _ _ _) hmade
    | file | directory =>
      exact (failsIn_cannot _ _ _ _).bind fun _ _ =>
        failsIn_attempt_bind (fun e => failsIn_cannot _ _ _ _) hmade

/-- Whatever the user types at the pager, it is a key, or it is refused while the pager runs. -/
theorem running_of_rounds {pager : Pager} {events : List Event} {unread : List Input}
    {e : Failure} (h : (pager.rounds events unread).1 = .error e) : e.phase? = some .running := by
  induction unread generalizing pager events with
  | nil =>
    unfold Pager.rounds at h
    split at h <;> cases h
  | cons input rest ih =>
    rw [Pager.rounds] at h
    split at h
    · cases h
    · simp only at h
      split at h
      · cases h
        rfl
      · split at h
        · cases h
          rfl
        · split at h
          · cases h
          · exact ih h

/-- Lines that cannot be browsed are found out about while the pager runs. -/
theorem running_of_linesToBrowse {call : Call} {v : Volume} {e : Failure}
    (h : linesToBrowse call v = .error e) : e.phase? = some .running := by
  unfold linesToBrowse at h
  split at h
  · cases h
  · split at h
    · cases h
      rfl
    · split at h
      · cases h
      · cases h
        rfl

theorem failsIn_more (pageSize : Nat) (call : Call) : FailsIn .running (more pageSize call) := by
  refine (failsIn_look _).bind fun lines hlines => FailsIn.bind ?_ fun lines _ =>
    (failsIn_converse _).bind fun shown hshown => FailsIn.bind ?_ fun _ _ => failsIn_pure _
  · obtain ⟨s, s', hlines⟩ := hlines
    cases hlines
    exact failsIn_ofExcept fun e he => running_of_linesToBrowse he
  · obtain ⟨s, s', hshown⟩ := hshown
    cases hshown
    exact failsIn_ofExcept fun e he => running_of_rounds he

theorem failsIn_removeWith (command : Command) (path : Path)
    (change : Volume → Except FileError Unit × Volume) :
    FailsIn .running (removeWith command path change) :=
  failsIn_attempt_bind (fun _ => failsIn_cannot _ _ _ _) (failsIn_pure _)

/-- A question never fails; where no answer can be read there is none. -/
theorem failsIn_confirm {phase : Phase} (prompt : Text) : FailsIn phase (confirm prompt) := by
  refine (failsIn_converse _).bind fun answer _ => ?_
  rcases answer with reason | _ | t
  · exact (failsIn_record _ _).bind fun _ _ => failsIn_pure _
  · exact failsIn_pure _
  · exact failsIn_pure _

theorem failsIn_removeFull (command : Command) (recursive : Bool) (path : Path) :
    FailsIn .running (removeFull command recursive path) := by
  cases recursive with
  | true =>
    rw [removeFull_recursive]
    exact failsIn_removeWith command path (·.removeAll path)
  | false =>
    refine (failsIn_confirm _).bind fun answer _ => ?_
    cases answer with
    | proceed => exact failsIn_removeWith _ _ _
    | declined | aborted => exact (failsIn_record _ _).bind fun _ _ => failsIn_converse _

theorem failsIn_removeDirectory (command : Command) (recursive : Bool) (path : Path) :
    FailsIn .running (removeDirectory command recursive path) := by
  refine (failsIn_look _).bind fun names _ => ?_
  cases names with
  | error e => exact failsIn_cannot _ _ _ _
  | ok names =>
    by_cases hempty : names.isEmpty = true
    · simpa [hempty] using failsIn_removeWith _ _ _
    · simpa [hempty] using failsIn_removeFull _ _ _

theorem failsIn_removeOne (command : Command) (recursive : Bool) (path : Path) :
    FailsIn .running (removeOne command recursive path) := by
  refine (failsIn_stat path).bind fun presence _ => ?_
  cases presence with
  | missing => exact failsIn_cannot _ _ _ _
  | directory => exact failsIn_removeDirectory _ _ _
  | file =>
    by_cases hcommand : command = .rmdir
    · simpa [hcommand] using failsIn_cannot _ _ _ _
    · simpa [hcommand] using failsIn_removeWith _ _ _

theorem failsIn_remove (command : Command) (call : Call) :
    FailsIn .running (remove command call) := by
  refine FailsIn.bind ?_ fun _ _ => failsIn_pure _
  induction call.paths with
  | nil => exact failsIn_pure _
  | cons path rest ih =>
    exact (failsIn_removeOne _ _ _).bind fun _ _ => (failsIn_record _ _).bind fun _ _ => ih

theorem failsIn_copyOne (command : Command) (source target : Path) :
    FailsIn .running (copyOne command source target) := by
  intro s e s' h
  rcases copyOne_cases command source target s with ⟨-, -, _, _, -, hone⟩ | ⟨-, cause, hone⟩
  · rw [hone] at h
    cases h
  · rw [hone] at h
    cases h
    rfl

theorem failsIn_copyEach (command : Command) (target : Path → Path) (sources : List Path) :
    FailsIn .running (copyEach command target sources) := by
  induction sources with
  | nil => exact failsIn_pure _
  | cons source rest ih =>
    refine (failsIn_stat source).bind fun presence _ => ?_
    cases presence with
    | missing => exact failsIn_cannot _ _ _ _
    | directory =>
      exact FailsIn.bind ((failsIn_record _ _).bind fun _ _ => failsIn_converse _) fun _ _ => ih
    | file =>
      exact (failsIn_copyOne _ _ _).bind fun _ _ => ih.bind fun _ _ => failsIn_pure _

/-- What was copied stays where it cannot be removed, which is no failure. -/
theorem failsIn_removeEach {phase : Phase} (command : Command) (copied : List Path) :
    FailsIn phase (removeEach command copied) := by
  induction copied with
  | nil => exact failsIn_pure _
  | cons source rest ih =>
    exact failsIn_attempt_bind (fun _ => (failsIn_record _ _).bind fun _ _ => ih) ih

/-- A command that is called with a path has a destination. -/
theorem failsIn_transfer (command : Command) {call : Call} (paths : call.paths ≠ []) :
    FailsIn .running (transfer command call) := by
  obtain ⟨sources, destination, hpaths⟩ := (List.eq_nil_or_concat' call.paths).resolve_left paths
  rw [transfer, hpaths, List.getLast?_concat]
  refine (failsIn_stat _).bind fun presence _ => (failsIn_copyEach _ _ _).bind fun copied _ => ?_
  by_cases hmoves : command = .mv
  · simpa [hmoves] using (failsIn_removeEach _ _).bind fun _ _ => failsIn_pure _
  · simpa [hmoves] using failsIn_pure _

/-- **A command fails for what it meets while it runs**, provided that one that copies or moves is
called with a path. The one that leaves the shell meets nothing. -/
theorem failsIn_run (env : Environment) {command : Command} {call : Call}
    (stays : command ≠ .exit) (paths : command = .cp ∨ command = .mv → call.paths ≠ []) :
    FailsIn .running (command.run env call) := by
  cases command with
  | args => exact failsIn_describe _ _ _ _
  | help => exact failsIn_describe _ _ _ _
  | cat => exact failsIn_cat _ _
  | cd => exact failsIn_changeDirectory _
  | cp => exact failsIn_transfer _ (paths (.inl rfl))
  | mv => exact failsIn_transfer _ (paths (.inr rfl))
  | date => exact failsIn_pure _
  | exit => exact absurd rfl stays
  | ls => exact failsIn_list _
  | mkdir => exact failsIn_makeDirectories _
  | more => exact failsIn_more _ _
  | pwd => exact failsIn_of_ok fun s => ⟨_, s, rfl⟩
  | rm => exact failsIn_remove _ _
  | rmdir => exact failsIn_remove _ _

/-- An output that cannot be delivered is found out about at the end of the run. -/
theorem failsIn_deliver (output : Text) (sink? : Option Sink) :
    FailsIn .running (deliver output sink?) := by
  unfold deliver
  cases sink? with
  | none =>
    change FailsIn .running (if output.isEmpty then pure () else Shell.write _)
    split
    · exact failsIn_pure _
    · exact failsIn_converse _
  | some sink => exact failsIn_attempt_bind (fun _ => failsIn_throw rfl) (failsIn_pure _)

/-! ## Lines -/

/-- A command that copies or moves is called with a path. -/
theorem paths_ne_nil_of_bindStage {env : Environment} {stage : Stage} {piped : Option Text}
    {s s' : State} {call : Call} (suits : stage.arguments.Suits stage.command.signature)
    (h : bindStage env stage piped s = .ok call s')
    (transfers : stage.command = .cp ∨ stage.command = .mv) : call.paths ≠ [] := by
  have hbind := bind_of_bindStage h
  rw [signature_of_transfers transfers] at suits hbind
  obtain ⟨_, word, sources, -, hoperands, -⟩ := exists_destination_of_bind suits hbind
  simp [Call.paths, hoperands]

/-- **A stage that suits its signature fails while it is bound or while its command runs**; or it
does not fail, and asks to leave. -/
theorem phase_of_runStage {env : Environment} {total number : Nat} {stage : Stage}
    {piped : Option Text} (suits : stage.arguments.Suits stage.command.signature) {s s' : State}
    {e : Failure} (h : runStage env total number stage piped s = .error e s') :
    e.phase? = some .binding ∨ e.phase? = some .running ∨
      stage.command = .exit ∧ e = .halt ∧
        s' = s.logged .info (stageRecord number total stage.command) := by
  rw [runStage] at h
  rcases Shell.bind_eq_error.1 h with h | ⟨call, s₁, hbind, hrun⟩
  · exact .inl (failsIn_bindStage env stage piped s e s' h)
  · rw [eq_of_bindStage hbind, Shell.bind_of_ok (Shell.record_apply _ _ s)] at hrun
    by_cases leaves : stage.command = .exit
    · rw [leaves] at hrun
      cases hrun
      exact .inr (.inr ⟨leaves, rfl, by rw [leaves]⟩)
    · have paths := paths_ne_nil_of_bindStage suits hbind
      exact .inr (.inl (failsIn_run env leaves paths _ e s' hrun))

/-- **Stages one after the other fail after they were read**, also when the last output cannot be
delivered. -/
theorem exists_phase_of_runStages {env : Environment} {total number : Nat}
    {piped : Option Text} {stages : List Stage}
    (suits : ∀ stage ∈ stages, stage.arguments.Suits stage.command.signature) {s s' : State}
    {e : Failure} (h : runStages env total number piped stages s = .error e s') :
    ∃ phase, phase ≠ .reading ∧ e.phase? = some phase := by
  have hstage {stage : Stage} (hmem : stage ∈ stages) {number : Nat} {piped : Option Text}
      {s : State} (h : runStage env total number stage piped s = .error e s') :
      ∃ phase, phase ≠ .reading ∧ e.phase? = some phase := by
    rcases phase_of_runStage (suits stage hmem) h with hphase | hphase | ⟨-, rfl, -⟩
    · exact ⟨.binding, nofun, hphase⟩
    · exact ⟨.running, nofun, hphase⟩
    · exact ⟨.leaving, nofun, rfl⟩
  induction stages generalizing number piped s with
  | nil => cases h
  | cons stage rest ih =>
    rcases runStages_cons_eq_error.1 h with h | ⟨output, s₁, -, h | ⟨-, h⟩⟩
    · exact hstage List.mem_cons_self h
    · exact ih (fun other hmem => suits other (List.mem_cons_of_mem _ hmem)) h
        fun hmem => hstage (List.mem_cons_of_mem _ hmem)
    · exact ⟨.running, nofun, failsIn_deliver _ _ s₁ e s' h⟩

/-- A line fails because it cannot be read, or because its stages fail; the record of a failure
leaves the failure as it is. -/
theorem exists_of_runLine_eq_error {env : Environment} {line : Text} {s s' : State} {e : Failure}
    (h : runLine env line s = .error e s') :
    env.config.parse line = .error e ∨
      ∃ stages s₁ s₂, env.config.parse line = .ok stages ∧
        execute env stages s₁ = .error e s₂ := by
  rcases hparse : env.config.parse line with cause | stages
  · rw [runLine_of_parse_eq_error hparse] at h
    cases h
    exact .inl rfl
  · obtain ⟨s₁, hend, -⟩ := execute_of_runLine_eq_error hparse h
    exact .inr ⟨stages, _, s₁, rfl, hend⟩

/-- **A line fails in one of the phases**: with a cause of reading it, of binding the words of a
stage, or of running a command. -/
theorem phase?_ne_none_of_runLine {env : Environment} {line : Text} {s s' : State} {e : Failure}
    (h : runLine env line s = .error e s') : e.phase? ≠ none := by
  rcases exists_of_runLine_eq_error h with hparse | ⟨stages, s₁, s₂, hparse, hrun⟩
  · rw [reading_of_parse hparse]
    exact Option.some_ne_none _
  · have hwell : ∀ stage ∈ stages, stage.WellRead env.config := (wellRead_of_parse hparse).2.1
    obtain ⟨phase, -, hphase⟩ :=
      exists_phase_of_runStages (fun stage hmem => (hwell stage hmem).arguments) hrun
    rw [hphase]
    exact Option.some_ne_none _

end FileShell
