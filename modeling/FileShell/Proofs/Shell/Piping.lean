import FileShell.Proofs.Command.Binding
import FileShell.Proofs.Shell.Related

/-! # What passes through a pipe

A stage that does not read its input takes no notice of what is piped to it, so a pipe that leads to
it stands for nothing but running one line after the other (`execute_piped`). The command `cat`
hands its input on as it is, so a pipe that leads to it can be put at the end of any line
(`execute_passedOn`). Both are comparisons of runs whose stages are numbered differently. The records
of stages show it, and with them the file that is open for the log, but nothing else does as long as
no stage looks into that file.

* **`State.Alike`** — two states that nothing tells apart but their records and what was shown
  before.
* **`ReadsNoRecords`** — no stage looks into a file in which there are records of stages.
* **`alike_runStages`** — stages do the same in states that are alike, however they are numbered.
* **`runStage_piped`** — a stage that does not read its input ignores it. -/

namespace FileShell

/-! ## States that are alike -/

/-- **The records of stages are kept to the journal**: no file that is open for the log takes
them. -/
def Volume.HidesStages (v : Volume) : Prop :=
  ∀ log, v.log = some log → log.filter.covers .info = false

namespace Volume

variable {v : Volume}

/-- Where no log is open nothing takes them. -/
theorem hidesStages_of_log_eq_none (h : v.log = none) : v.HidesStages := by
  rw [HidesStages, h]
  nofun

theorem HidesStages.logged (h : v.HidesStages) (r : Record) : (v.logged r).HidesStages := by
  rw [HidesStages, log_logged]
  exact h

/-- The record of a stage changes nothing then. -/
theorem HidesStages.logged_info (h : v.HidesStages) (t : Text) : v.logged ⟨.info, t⟩ = v := by
  unfold Volume.logged
  split
  · rfl
  · next log hlog => rw [if_neg (by simp [h log hlog])]

end Volume

/-- **Two states are alike** after different things were shown: they have the same session and the
same input left, and the same was shown since. Their journals are left out of account, and so is the
file that is open for the log; all other files are the same. Where the records of stages are hidden,
that file is the same as well. -/
structure State.Alike (hides : Prop) (shown shown' : List Event) (s s' : State) : Prop where
  files : Volume.Alike True s.volume s'.volume
  hidden : hides → s'.volume = s.volume ∧ s.volume.HidesStages
  session : s'.session = s.session
  unread : s'.console.unread = s.console.unread
  since : ∃ since, s.console.events = shown ++ since ∧ s'.console.events = shown' ++ since

namespace State.Alike

variable {hides : Prop} {shown shown' : List Event} {s s' : State}

/-- A state is like itself. -/
theorem refl (s : State) : s.Alike s.volume.HidesStages [] [] s :=
  ⟨.refl True s.volume, fun hides => ⟨rfl, hides⟩, rfl, rfl, s.console.events, rfl, rfl⟩

/-- Files and records are changed, and nothing else. -/
theorem withFiles (h : s.Alike hides shown shown' s') {v v' : Volume}
    (files : Volume.Alike True v v') (hidden : hides → v' = v ∧ v.HidesStages)
    (journal journal' : List Record) :
    { s with volume := v, journal }.Alike hides shown shown'
      { s' with volume := v', journal := journal' } :=
  ⟨files, hidden, h.session, h.unread, h.since⟩

/-- The same is changed in the files. -/
theorem changed (h : s.Alike hides shown shown' s')
    {change : Volume → Except FileError Unit × Volume} (closed : OpensNoLog change)
    (files : Volume.Alike True (change s.volume).2 (change s'.volume).2) :
    { s with volume := (change s.volume).2 }.Alike hides shown shown'
      { s' with volume := (change s'.volume).2 } := by
  refine h.withFiles files (fun held => ?_) s.journal s'.journal
  obtain ⟨hsame, hhides⟩ := h.hidden held
  exact ⟨by rw [hsame], fun log hlog => hhides log (closed _ log hlog)⟩

/-- The same record is made. -/
theorem logged (h : s.Alike hides shown shown' s') (level : Level) (t : Text) :
    (s.logged level t).Alike hides shown shown' (s'.logged level t) := by
  refine h.withFiles (h.files.logged _ _) (fun held => ?_) _ _
  obtain ⟨hsame, hhides⟩ := h.hidden held
  exact ⟨by rw [hsame], hhides.logged _⟩

/-- On one side the record of a stage may be made alone. -/
theorem logged_info (h : s.Alike hides shown shown' s') (t : Text) :
    s.Alike hides shown shown' (s'.logged .info t) := by
  refine h.withFiles (h.files.logged_right _) (fun held => ?_) s.journal _
  obtain ⟨hsame, hhides⟩ := h.hidden held
  exact ⟨by rw [hsame, hhides.logged_info], hhides⟩

/-- The records of stages need not even be the same. -/
theorem logged_info_info (h : s.Alike hides shown shown' s') (t t' : Text) :
    (s.logged .info t).Alike hides shown shown' (s'.logged .info t') := by
  refine h.withFiles (h.files.logged _ _) (fun held => ?_) _ _
  obtain ⟨hsame, hhides⟩ := h.hidden held
  exact ⟨by rw [hsame, hhides.logged_info, hhides.logged_info], hhides.logged _⟩

/-- Two states that are alike in all that was shown are so after that as well. -/
theorem shown_right (h : s.Alike hides [] [] s') (output : Text) :
    s.Alike hides s'.console.events (s'.shown output).console.events (s'.shown output) := by
  obtain ⟨since, hevents, hevents'⟩ := h.since
  have hsame : s.console.events = s'.console.events := hevents.trans hevents'.symm
  unfold State.shown
  split
  · exact ⟨h.files, h.hidden, h.session, h.unread, [], by simp [hsame], by simp⟩
  · exact ⟨h.files, h.hidden, h.session, h.unread, [], by simp [hsame], by simp⟩

end State.Alike

/-! ## Stages that read no records -/

/-- **A stage spares the log** when it is reached in a state: whatever it is bound to, no file that it
looks into is the one that is open for the log. -/
def Stage.SparesLog (env : Environment) (stage : Stage) (piped : Option Text) (s : State) : Prop :=
  ∀ call, bindStage env stage piped s = .ok call s →
    s.volume.LogNotAmong (stage.command.reads call)

/-- **Stages spare the log** if each of them does so where it is reached. -/
def StagesSpareLog (env : Environment) (total : Nat) :
    (number : Nat) → Option Text → List Stage → State → Prop
  | _, _, [], _ => True
  | number, piped, stage :: rest, s =>
    stage.SparesLog env piped s ∧
      ∀ output s', runStage env total number stage piped s = .ok output s' →
        StagesSpareLog env total (number + 1) (some output) rest s'

/-- **A run of a pipeline reads no records of stages**: there is no file that takes them, or no stage
looks into it. -/
def ReadsNoRecords (env : Environment) (stages : List Stage) (s : State) : Prop :=
  s.volume.HidesStages ∨ StagesSpareLog env stages.length 1 none stages s

/-- Stages of commands that look into no file spare the log. -/
theorem stagesSpareLog_of_reads {env : Environment} {total number : Nat} {piped : Option Text}
    {stages : List Stage} {s : State} (h : ∀ stage ∈ stages, ∀ call, stage.command.reads call = []) :
    StagesSpareLog env total number piped stages s := by
  induction stages generalizing number piped s with
  | nil => trivial
  | cons stage rest ih =>
    obtain ⟨hstage, hrest⟩ := List.forall_mem_cons.1 h
    refine ⟨fun call _ => ?_, fun output s' _ => ih hrest⟩
    rw [hstage call]
    exact List.forall_mem_nil _

/-- **Stages that spare the log** do so up to any one of them, and from there on. -/
theorem StagesSpareLog.of_append {env : Environment} {total number : Nat} {piped : Option Text}
    {stages later : List Stage} {s : State}
    (h : StagesSpareLog env total number piped (stages ++ later) s) :
    StagesSpareLog env total number piped stages s ∧
      ∀ fed s', feedStages env total number piped stages s = .ok fed s' →
        StagesSpareLog env total (number + stages.length) fed later s' := by
  induction stages generalizing number piped s with
  | nil =>
    refine ⟨trivial, fun fed s' hfed => ?_⟩
    cases hfed
    exact h
  | cons stage rest ih =>
    refine ⟨⟨h.1, fun output s' hrun => (ih (h.2 output s' hrun)).1⟩, fun fed s' hfed => ?_⟩
    rw [feedStages] at hfed
    rcases hrun : runStage env total number stage piped s with ⟨output, s₁⟩ | ⟨e, s₁⟩
    · rw [Shell.bind_of_ok hrun] at hfed
      have hrest := (ih (h.2 output s₁ hrun)).2 fed s' hfed
      rwa [Nat.add_assoc, Nat.add_comm 1] at hrest
    · rw [Shell.bind_of_error hrun] at hfed
      cases hfed

/-! ## Runs from states that are alike -/

/-- **Given files may be looked into** from two states that are alike: they are the same in both. -/
structure State.AlikeReading (hides : Prop) (shown shown' : List Event) (reads : List Path)
    (s s' : State) : Prop where
  alike : s.Alike hides shown shown' s'
  quiet : hides ∨ s.volume.LogNotAmong reads

/-- Not to look into any file is allowed always. -/
theorem State.AlikeReading.of_alike {hides : Prop} {shown shown' : List Event} {s s' : State}
    (h : s.Alike hides shown shown' s') : s.AlikeReading hides shown shown' [] s' :=
  ⟨h, .inr (List.forall_mem_nil _)⟩

namespace Shell

variable {hides : Prop} {shown shown' : List Event} {s s' : State}

/-- **Being alike is kept step by step.** -/
theorem kept_alike (hides : Prop) (shown shown' : List Event) (reads : List Path) :
    Kept reads (State.AlikeReading hides shown shown' reads) where
  session h := h.alike.session
  looks h := ⟨h.alike.files.stat, h.alike.files.names⟩
  texts := by
    intro s s' h p hp
    -- either the log is the same as well, or it is not one of these files
    rcases h.quiet with held | elsewhere
    · rw [(h.alike.hidden held).1]
      exact ⟨rfl, rfl⟩
    · have htext := h.alike.files.readText_tree trivial (elsewhere p hp)
      unfold Volume.readText Volume.readLines Volume.unlessRefused
      rw [h.alike.files.interference, htext]
      exact ⟨rfl, rfl⟩
  changed := by
    intro s s' h change made
    have files := h.alike.files
    cases made with
    | @copyFile _ source read target =>
      have hcopied : (s'.volume.copyFile source target).1 = (s.volume.copyFile source target).1 ∧
          Volume.Alike True (s.volume.copyFile source target).2
            (s'.volume.copyFile source target).2 := by
        rcases h.quiet with held | elsewhere
        · rw [(h.alike.hidden held).1]
          exact ⟨rfl, .refl True _⟩
        · exact files.copyFile (fun _ => elsewhere source read) target
      exact ⟨hcopied.1, h.alike.changed (opensNoLog_copyFile source target) hcopied.2,
        h.quiet.imp_right (·.copyFile source target)⟩
    | removeFile _ p =>
      exact ⟨(files.removeFile p).1,
        h.alike.changed (opensNoLog_removeFile p) (files.removeFile p).2,
        h.quiet.imp_right (·.removeFile p)⟩
    | removeDirectory p =>
      exact ⟨(files.removeDirectory p).1,
        h.alike.changed (opensNoLog_removeDirectory p) (files.removeDirectory p).2,
        .inr (List.forall_mem_nil _)⟩
    | removeAll p =>
      exact ⟨(files.removeAll p).1,
        h.alike.changed (opensNoLog_removeAll p) (files.removeAll p).2,
        .inr (List.forall_mem_nil _)⟩
    | createDirectory p =>
      exact ⟨(files.createDirectory p).1,
        h.alike.changed (opensNoLog_createDirectory p) (files.createDirectory p).2,
        .inr (List.forall_mem_nil _)⟩
    | write p text mode =>
      exact ⟨(files.write p text mode).1,
        h.alike.changed (opensNoLog_write p text mode) (files.write p text mode).2,
        .inr (List.forall_mem_nil _)⟩
  talked := by
    intro s s' h α talk heedless
    obtain ⟨files, hidden, session, unread, since, hevents, hevents'⟩ := h.alike
    obtain ⟨a, rest, more, -, htalk⟩ := heedless s.console.unread
    have hs : talk s.console = (a, ⟨rest, s.console.events ++ more⟩) := htalk s.console.events
    have hs' : talk s'.console = (a, ⟨rest, s'.console.events ++ more⟩) := by
      have hmore := htalk s'.console.events
      rwa [← unread] at hmore
    -- what the talk shows stands behind both, whatever was shown before
    rw [hs, hs']
    exact ⟨rfl, ⟨files, hidden, session, rfl, since ++ more, by simp [hevents],
      by simp [hevents']⟩, h.quiet⟩
  recorded h level t := ⟨h.alike.logged level t, h.quiet.imp_right (·.logged _)⟩

theorem alike_changeDirectory (call : Call) :
    Related (State.Alike hides shown shown') (changeDirectory call) (changeDirectory call) := by
  intro s s' h
  have htarget (p : Path) : s'.session.changeDirectory s'.volume p =
      s.session.changeDirectory s.volume p := by
    simp only [Session.changeDirectory, h.session, h.files.stat]
  rw [changeDirectory, changeDirectory, htarget, h.session]
  split
  · exact .ok [] ⟨h.files, h.hidden, rfl, h.unread, h.since⟩
  · exact .error _ h

/-- **A command does the same in states that are alike.** -/
theorem alike_run (env : Environment) (command : Command) {call : Call}
    (h : s.AlikeReading hides shown shown' (command.reads call) s') :
    SameEnd (State.Alike hides shown shown') (command.run env call s)
      (command.run env call s') := by
  by_cases cd : command = .cd
  · subst cd
    exact alike_changeDirectory call s s' h.alike
  · exact (related_run env cd (kept_alike hides shown shown' _) s s' h).mono fun h => h.alike

/-- An output is delivered in the same way. -/
theorem alike_deliver (output : Text) (sink? : Option Sink) :
    Related (State.Alike hides shown shown') (deliver output sink?) (deliver output sink?) :=
  fun s s' h => (related_deliver (kept_alike hides shown shown' []) output sink? s s'
    (.of_alike h)).mono fun h => h.alike

section

variable {env : Environment} {total : Nat} (total' : Nat)

/-- **So does a stage**, however it is numbered. -/
theorem alike_runStage {number : Nat} (number' : Nat) {stage : Stage} {piped : Option Text}
    (h : s.Alike hides shown shown' s') (quiet : hides ∨ stage.SparesLog env piped s) :
    SameEnd (State.Alike hides shown shown') (runStage env total number stage piped s)
      (runStage env total' number' stage piped s') := by
  -- to be bound takes no look into a file, so that the calls are the same
  have hend := related_bindStage (kept_alike hides shown shown' []) env stage piped s s' (.of_alike h)
  rcases bindStage_cases env stage piped s with ⟨call, hbound⟩ | ⟨e, hfails⟩
  · rcases bindStage_cases env stage piped s' with ⟨call', hbound'⟩ | ⟨e, hfails'⟩
    · rw [hbound, hbound'] at hend
      cases hend
      rw [runStage_of_bindStage hbound, runStage_of_bindStage hbound']
      exact alike_run env stage.command
        ⟨h.logged_info_info _ _, quiet.imp_right fun spares => (spares call hbound).logged _⟩
    · rw [hbound, hfails'] at hend
      cases hend
  · rcases bindStage_cases env stage piped s' with ⟨call', hbound'⟩ | ⟨e, hfails'⟩
    · rw [hfails, hbound'] at hend
      cases hend
    · rw [hfails, hfails'] at hend
      cases hend
      rw [runStage, runStage, bind_of_error hfails, bind_of_error hfails']
      exact .error _ h

theorem alike_feedStages {number : Nat} (number' : Nat) {piped : Option Text} {stages : List Stage}
    (h : s.Alike hides shown shown' s')
    (quiet : hides ∨ StagesSpareLog env total number piped stages s) :
    SameEnd (State.Alike hides shown shown') (feedStages env total number piped stages s)
      (feedStages env total' number' piped stages s') := by
  induction stages generalizing number number' piped s s' with
  | nil => exact .ok piped h
  | cons stage rest ih =>
    rw [feedStages, feedStages]
    exact (alike_runStage total' number' h (quiet.imp_right And.left)).bind fun output t t' hrun h =>
      ih (number' + 1) h (quiet.imp_right fun spares => spares.2 output t hrun)

theorem alike_runLast {number : Nat} (number' : Nat) {stage : Stage} {piped : Option Text}
    (h : s.Alike hides shown shown' s') (quiet : hides ∨ stage.SparesLog env piped s) :
    SameEnd (State.Alike hides shown shown') (runLast env total number stage piped s)
      (runLast env total' number' stage piped s') := by
  rw [runLast, runLast, h.session]
  exact (alike_runStage total' number' h quiet).bind fun output t t' _ h =>
    alike_deliver output _ t t' h

/-- **And so do stages one after the other.** -/
theorem alike_runStages {number : Nat} (number' : Nat) {piped : Option Text} {stages : List Stage}
    (h : s.Alike hides shown shown' s')
    (quiet : hides ∨ StagesSpareLog env total number piped stages s) :
    SameEnd (State.Alike hides shown shown') (runStages env total number piped stages s)
      (runStages env total' number' piped stages s') := by
  induction stages generalizing number number' piped s s' with
  | nil => exact .ok () h
  | cons stage rest ih =>
    cases rest with
    | nil =>
      rw [runStages_singleton, runStages_singleton]
      exact alike_runLast total' number' h (quiet.imp_right And.left)
    | cons next later =>
      rw [runStages_cons_cons, runStages_cons_cons]
      exact (alike_runStage total' number' h (quiet.imp_right And.left)).bind
        fun output t t' hrun h =>
          ih (number' + 1) h (quiet.imp_right fun spares => spares.2 output t hrun)

end

end Shell

/-! ## Stages that do not read their input -/

/-- **A stage reads its input** if it is one of two commands and has nothing else to read. -/
def Stage.ReadsInput (stage : Stage) : Prop :=
  (stage.command = .cat ∨ stage.command = .more) ∧ stage.arguments.operands = []

instance : DecidablePred Stage.ReadsInput := fun stage =>
  inferInstanceAs (Decidable ((_ ∨ _) ∧ stage.arguments.operands = []))

/-- **A command that has paths to look at does not look at its input.** -/
theorem run_piped (env : Environment) {command : Command} {call : Call}
    (paths : command = .cat ∨ command = .more → call.paths ≠ []) (piped : Option Text) :
    command.run env { call with piped } = command.run env call := by
  cases command with
  | cat =>
    have hoperands : call.operands ≠ [] :=
      fun hnil => paths (.inl rfl) (by simp [Call.paths, hnil])
    have hempty : call.operands.isEmpty = false := by simpa using hoperands
    simp only [Command.run, cat, hempty, Bool.false_eq_true, if_false]
    rfl
  | more =>
    have hlines : linesToBrowse { call with piped } = linesToBrowse call := by
      funext v
      -- the first path is looked at, and nothing else
      obtain ⟨path, rest, hcons⟩ := List.exists_cons_of_ne_nil (paths (.inr rfl))
      have hpaths : ({ call with piped } : Call).paths = path :: rest := hcons
      simp only [linesToBrowse, hpaths, hcons, List.head?_cons]
    simp only [Command.run, more, hlines]
  | args | cd | cp | date | exit | help | ls | mkdir | mv | pwd | rm | rmdir => rfl

/-- The input plays no part while a call is bound; it is only passed on. -/
theorem bind_piped (session : Session) (v : Volume) (scope : MatchScope) (command : Text)
    (signature : Signature) (arguments : Arguments) (piped piped' : Option Text) :
    session.bind v scope command signature arguments piped' =
      (fun call => { call with piped := piped' }) <$>
        session.bind v scope command signature arguments piped := by
  rw [Session.bind, Session.bind]
  rcases session.bindOperands v scope command signature arguments.operands.length 0
    arguments.operands with e | bound
  · rfl
  · simp only [Outcome.ok_bind]
    rcases Session.checkLayout v command signature arguments.operands bound with e | _ <;> rfl

/-- So it is while a stage is bound. -/
theorem bindStage_piped (env : Environment) (stage : Stage) (piped piped' : Option Text)
    (s : State) :
    bindStage env stage piped' s =
      (bindStage env stage piped >>= fun call => pure { call with piped := piped' }) s := by
  rw [bindStage, bind_piped s.session s.volume _ _ _ _ piped piped']
  rcases hcall : s.session.bind s.volume (env.config.matchScope stage.command.name)
    stage.command.name stage.command.signature stage.arguments piped with e | call
  · have hfails : bindStage env stage piped s = .error e s := by rw [bindStage, hcall]; rfl
    rw [Shell.bind_of_error hfails]
    rfl
  · have hbound : bindStage env stage piped s = .ok call s := by rw [bindStage, hcall]; rfl
    rw [Shell.bind_of_ok hbound]
    rfl

/-- An operand that has to name a path is bound to one. -/
theorem paths_ne_nil_of_bind {session : Session} {v : Volume} {scope : MatchScope} {command : Text}
    {signature : Signature} {arguments : Arguments} {piped : Option Text} {call : Call}
    (suits : arguments.Suits signature) (needed : ∀ i count, signature.requirement i count ≠ .free)
    (h : session.bind v scope command signature arguments piped = .ok call)
    (named : arguments.operands ≠ []) : call.paths ≠ [] := by
  obtain ⟨-, hlength, hserves⟩ := serves_of_bind suits h
  obtain ⟨operand, operands, hoperands⟩ := List.exists_cons_of_ne_nil named
  obtain ⟨bound, others, hbound⟩ : ∃ bound others, call.operands = bound :: others :=
    List.exists_cons_of_length_pos (by rw [hlength, hoperands]; simp)
  have hpaths : bound.paths ≠ [] :=
    (hserves 0 operand bound (by rw [hoperands]; rfl) (by rw [hbound]; rfl)).paths_ne_nil
      (needed _ _)
  simp [Call.paths, hbound, hpaths]

section

variable {env : Environment} {total number : Nat} {stage : Stage}

/-- **A stage that does not read its input ignores it.** -/
theorem runStage_piped (suits : stage.arguments.Suits stage.command.signature)
    (ignores : ¬ stage.ReadsInput) (piped piped' : Option Text) (s : State) :
    runStage env total number stage piped' s = runStage env total number stage piped s := by
  have hpiped := bindStage_piped env stage piped piped' s
  rw [runStage, runStage]
  rcases bindStage_cases env stage piped s with ⟨call, hbound⟩ | ⟨e, hfails⟩
  · rw [Shell.bind_of_ok hbound] at hpiped
    have hpaths : stage.command = .cat ∨ stage.command = .more → call.paths ≠ [] := by
      intro reads
      have needed : ∀ i count, stage.command.signature.requirement i count ≠ .free := by
        intro i count
        rcases reads with hcommand | hcommand <;>
          rw [hcommand, Command.signature, Signature.requirement_uniform] <;> decide
      exact paths_ne_nil_of_bind suits needed (bind_of_bindStage hbound)
        fun hnil => ignores ⟨reads, hnil⟩
    rw [Shell.bind_of_ok hbound, Shell.bind_of_ok hpiped, run_piped env hpaths]
  · rw [Shell.bind_of_error hfails] at hpiped
    rw [Shell.bind_of_error hfails, Shell.bind_of_error hpiped]

/-- So do stages that begin with such a one. -/
theorem runStages_piped (suits : stage.arguments.Suits stage.command.signature)
    (ignores : ¬ stage.ReadsInput) (rest : List Stage) (piped piped' : Option Text) (s : State) :
    runStages env total number piped' (stage :: rest) s =
      runStages env total number piped (stage :: rest) s := by
  have hrun : runStage env total number stage piped' = runStage env total number stage piped :=
    funext (runStage_piped suits ignores piped piped')
  cases rest with
  | nil => rw [runStages_singleton, runStages_singleton, runLast, runLast, hrun]
  | cons next later => rw [runStages_cons_cons, runStages_cons_cons, hrun]

end

/-! ## One line after the other -/

section

variable {env : Environment} {total number : Nat} {piped : Option Text} {stages : List Stage}
  {s : State}

/-- What stages feed to the next one is there, if there is any stage. -/
theorem isSome_of_feedStages {fed : Option Text} {s' : State}
    (h : feedStages env total number piped stages s = .ok fed s')
    (given : piped.isSome = true ∨ stages ≠ []) : fed.isSome = true := by
  induction stages generalizing number piped s with
  | nil =>
    cases h
    exact given.resolve_right fun hne => hne rfl
  | cons stage rest ih =>
    rw [feedStages] at h
    rcases hrun : runStage env total number stage piped s with ⟨output, s₁⟩ | ⟨e, s₁⟩
    · rw [Shell.bind_of_ok hrun] at h
      exact ih h (.inl rfl)
    · rw [Shell.bind_of_error hrun] at h
      cases h

/-- **Stages without a redirection are run**, and what they would feed to a next one is shown. -/
theorem runStages_plain (hne : stages ≠ [])
    (plain : ∀ stage ∈ stages, stage.redirection = none) :
    runStages env total number piped stages s =
      (feedStages env total number piped stages >>= fun fed => deliver (fed.getD []) none) s := by
  induction stages generalizing number piped s with
  | nil => exact absurd rfl hne
  | cons stage rest ih =>
    rw [feedStages, bind_assoc]
    cases rest with
    | nil =>
      rw [runStages_singleton, runLast, plain stage List.mem_cons_self]
      rfl
    | cons next later =>
      rw [runStages_cons_cons]
      exact Shell.bind_congr fun output s₁ _ =>
        ih (by simp) fun stage hmem => plain stage (List.mem_cons_of_mem _ hmem)

end

/-- **Piping into a stage that does not read its input is running two lines**, one after the other.
A pipeline without a redirection is followed by one whose first stage does not read. Where the first
one fails, the two of them together fail in the same way, and nothing is different. Otherwise it has
an output, and the two together do what the second one does in the state that the first has left,
except that the output is not shown: that is what the two states differ in before the second one
begins. The stages are numbered differently, so no stage may look into a file in which there are
records of stages, and no other file tells the two runs apart. -/
theorem execute_piped (env : Environment) {line line' : Text} {stages later : List Stage}
    {next : Stage} (parsed : env.config.parse line = .ok stages)
    (parsed' : env.config.parse line' = .ok (next :: later))
    (plain : ∀ stage ∈ stages, stage.redirection = none) (ignores : ¬ next.ReadsInput) (s : State)
    (quiet : ReadsNoRecords env (stages ++ next :: later) s) :
    match execute env stages s with
    | .error e s₁ =>
      Shell.SameEnd (State.Alike s.volume.HidesStages [] [])
        (execute env (stages ++ next :: later) s) (.error e s₁)
    | .ok _ s₁ =>
      ∃ output reached, feedStages env stages.length 1 none stages s = .ok (some output) reached ∧
        s₁ = reached.shown output ∧
        Shell.SameEnd
          (State.Alike s.volume.HidesStages reached.console.events s₁.console.events)
          (execute env (stages ++ next :: later) s) (execute env (next :: later) s₁) := by
  have suits : next.arguments.Suits next.command.signature :=
    ((wellRead_of_parse parsed').2.1 next List.mem_cons_self).arguments
  have hne : stages ≠ [] := (wellRead_of_parse parsed).1
  have hexecute : execute env stages s = _ := runStages_plain hne plain
  have hexecute' : execute env (stages ++ next :: later) s = _ :=
    runStages_append_cons env _ 1 none stages next later s
  -- the stages before the pipe are numbered differently, but they end in the same way
  have hfeed := Shell.alike_feedStages stages.length 1 (.refl s)
    (quiet.imp_right fun spares => spares.of_append.1)
  rw [hexecute, hexecute']
  generalize hfed' : feedStages env (stages ++ next :: later).length 1 none stages s = r',
    hfed : feedStages env stages.length 1 none stages s = r at hfeed
  cases hfeed with
  | error e related =>
    rw [Shell.bind_of_error hfed, Shell.bind_of_error hfed']
    exact .error e related
  | @ok fed before reached related =>
    obtain ⟨output, rfl⟩ : ∃ output, fed = some output :=
      Option.isSome_iff_exists.1 (isSome_of_feedStages hfed (.inr hne))
    rw [Shell.bind_of_ok hfed, Shell.bind_of_ok hfed', Option.getD_some, deliver_none]
    refine ⟨output, reached, rfl, rfl, ?_⟩
    -- the second line might as well be given what is piped
    rw [execute, ← runStages_piped suits ignores later none (some output) (reached.shown output)]
    exact Shell.alike_runStages _ 1 (related.shown_right output)
      (quiet.imp_right fun spares => spares.of_append.2 _ before hfed')

/-- What is piped to the command that prints the date is lost, and the log says that it was piped. -/
theorem execute_piped_date :
    let pwd : Stage := ⟨.pwd, ⟨[], []⟩, none⟩
    let date : Stage := ⟨.date, ⟨[], []⟩, none⟩
    let logs : State := { State.atRoot .empty with volume :=
      { Volume.ofTree (Tree.empty.set [['l']] (.file .empty)) with log := some ⟨[['l']], .info⟩ } }
    Environment.plain.config.parse "pwd".toList = .ok [pwd] ∧
      Environment.plain.config.parse "date".toList = .ok [date] ∧ ¬ date.ReadsInput ∧
      ReadsNoRecords .plain [pwd, date] logs ∧ ∃ s₁ reached : State,
        execute .plain [pwd] logs = .ok () s₁ ∧ s₁ = reached.shown ['/'] ∧
        Shell.SameEnd
          (State.Alike logs.volume.HidesStages reached.console.events s₁.console.events)
          (execute .plain [pwd, date] logs) (execute .plain [date] s₁) := by
  intro pwd date logs
  have parsed : Environment.plain.config.parse "pwd".toList = .ok [pwd] := by rfl
  have parsed' : Environment.plain.config.parse "date".toList = .ok [date] := by rfl
  have ignores : ¬ date.ReadsInput := by decide
  have quiet : ReadsNoRecords .plain [pwd, date] logs :=
    .inr (stagesSpareLog_of_reads (by simp [pwd, date, Command.reads]))
  obtain ⟨s₁, hrun⟩ : ∃ s₁, execute .plain [pwd] logs = .ok () s₁ := ⟨_, rfl⟩
  have h := execute_piped .plain parsed parsed' (List.forall_mem_singleton.2 rfl) ignores logs quiet
  rw [hrun] at h
  obtain ⟨output, reached, hfeed, hshown, hend⟩ := h
  obtain ⟨s₂, hpwd⟩ : ∃ s₂, feedStages .plain 1 1 none [pwd] logs = .ok (some ['/']) s₂ := ⟨_, rfl⟩
  cases hpwd.symm.trans hfeed
  exact ⟨parsed, parsed', ignores, quiet, s₁, _, hrun, hshown, hend⟩

/-! ## The command that hands on its input -/

/-- **The stage that hands on its input**, and where its output goes. -/
def Stage.through (redirection : Option Redirection) : Stage := ⟨.cat, ⟨[], []⟩, redirection⟩

/-- **Stages with one more that hands on their output**, and takes over their redirection. -/
def passedOn : List Stage → List Stage
  | [] => []
  | [last] => [{ last with redirection := none }, .through last.redirection]
  | stage :: next :: later => stage :: passedOn (next :: later)

/-- It stands behind the last stage. -/
theorem passedOn_concat (stages : List Stage) (last : Stage) :
    passedOn (stages ++ [last]) =
      stages ++ [{ last with redirection := none }, .through last.redirection] := by
  induction stages with
  | nil => rfl
  | cons stage rest ih =>
    obtain ⟨next, later, hrest⟩ : ∃ next later, rest ++ [last] = next :: later :=
      List.exists_cons_of_ne_nil (by simp)
    rw [List.cons_append, hrest, passedOn, ← hrest, ih, List.cons_append]

/-- **Its output is what is piped to it**, whatever that is. -/
theorem runStage_through (env : Environment) (total number : Nat) (r : Option Redirection)
    (text : Text) (s : State) :
    runStage env total number (.through r) (some text) s =
      .ok text (s.logged .info (stageRecord number total .cat)) := rfl

/-- It fits its signature. -/
theorem suits_through (r : Option Redirection) :
    (Stage.through r).arguments.Suits (Stage.through r).command.signature where
  options := nofun
  enough := Nat.zero_le _
  notTooMany := nofun
  operands := fun i _ hi => by simp [Stage.through] at hi

/-- **A last stage alone comes to the same** as it and one that hands on its output, provided that its
redirection names the same file before and after it. -/
theorem alike_through {hides : Prop} {shown shown' : List Event} {env : Environment}
    {total number : Nat} (total' number' : Nat) {last : Stage} {piped : Option Text}
    (fixed : last.redirection = none ∨ last.command ≠ .cd) {s s' : State}
    (h : s.Alike hides shown shown' s') (quiet : hides ∨ last.SparesLog env piped s) :
    Shell.SameEnd (State.Alike hides shown shown') (runLast env total number last piped s)
      (runStages env total' number' piped
        [{ last with redirection := none }, .through last.redirection] s') := by
  have hend : Shell.SameEnd _ (runStage env total number last piped s) _ :=
    Shell.alike_runStage total' number' h quiet
  rw [runLast, runStages_cons_cons]
  change Shell.SameEnd _ _ ((runStage env total' number' last piped >>= _) s')
  generalize hrun : runStage env total number last piped s = r,
    hrun' : runStage env total' number' last piped s' = r' at hend
  cases hend with
  | error e related =>
    rw [Shell.bind_of_error hrun, Shell.bind_of_error hrun']
    exact .error e related
  | @ok output t t' related =>
    -- the file is named before the last stage on one side, and after it on the other
    have hsink : last.redirection.map t'.session.sink = last.redirection.map s.session.sink := by
      rcases fixed with hplain | hother
      · rw [hplain, Option.map_none, Option.map_none]
      · have hsession : (Shell.reached (runStage env total' number' last piped s')).session =
            s'.session := Shell.session_runStage hother s'
        rw [hrun'] at hsession
        rw [← h.session, ← hsession, Shell.reached]
    rw [Shell.bind_of_ok hrun, Shell.bind_of_ok hrun', runStages_singleton, runLast,
      Shell.bind_of_ok (runStage_through env total' (number' + 1) last.redirection output t')]
    change Shell.SameEnd _ _ (deliver output (last.redirection.map t'.session.sink) _)
    rw [hsink]
    exact Shell.alike_deliver output _ _ _ (related.logged_info _)

/-- **A pipeline whose output is handed on comes to the same.** The command that hands on its input
is put behind a pipeline that was read, and takes over its redirection. Then the stages are still
such as a line can be read as, and a run of them ends with the same result or the same failure in a
state that differs in its records alone, unless the pipeline leads to another directory last and
into a file. There is one stage more, so no stage may look into a file in which there are records of
stages. -/
theorem execute_passedOn (env : Environment) {line : Text} {stages : List Stage}
    (parsed : env.config.parse line = .ok stages) (enabled : env.config.enables .cat = true)
    (fixed : ∀ last ∈ stages.getLast?, last.redirection = none ∨ last.command ≠ .cd) (s : State)
    (quiet : ReadsNoRecords env stages s) :
    (∀ stage ∈ passedOn stages, stage.WellRead env.config) ∧
      (∀ stage ∈ (passedOn stages).dropLast, stage.redirection = none) ∧
      Shell.SameEnd (State.Alike s.volume.HidesStages [] []) (execute env stages s)
        (execute env (passedOn stages) s) := by
  obtain ⟨hne, hwell, hplain⟩ := wellRead_of_parse parsed
  obtain ⟨init, last, rfl⟩ := (List.eq_nil_or_concat' stages).resolve_left hne
  have hlast : last.WellRead env.config := hwell last (by simp)
  rw [List.dropLast_concat] at hplain
  refine ⟨fun stage hmem => ?_, fun stage hmem => ?_, ?_⟩
  · rw [passedOn_concat] at hmem
    rcases List.mem_append.1 hmem with hmem | hmem
    · exact hwell stage (List.mem_append_left _ hmem)
    · rcases List.mem_pair.1 hmem with rfl | rfl
      · exact ⟨hlast.enabled, hlast.arguments, nofun⟩
      · exact ⟨enabled, suits_through last.redirection, hlast.target⟩
  · rw [passedOn_concat, List.append_cons, List.dropLast_concat] at hmem
    rcases List.mem_append.1 hmem with hmem | hmem
    · exact hplain stage hmem
    · rw [List.mem_singleton.1 hmem]
  · have quiet' : s.volume.HidesStages ∨
        StagesSpareLog env (init.length + 1) 1 none (init ++ [last]) s := by
      rwa [ReadsNoRecords, List.length_append, List.length_singleton] at quiet
    rw [execute_append, execute, passedOn_concat, runStages_append_cons]
    refine (Shell.alike_feedStages _ 1 (.refl s) (quiet'.imp_right fun spares =>
      spares.of_append.1)).bind fun fed t t' hfed related => ?_
    rw [Nat.add_comm init.length 1]
    exact alike_through _ _ (fixed last (by simp)) related (quiet'.imp_right fun spares =>
      (spares.of_append.2 fed t hfed).1)

/-- The working directory handed on into a file, while a log is open. -/
theorem execute_passedOn_pwd :
    let pwd : Stage := ⟨.pwd, ⟨[], []⟩, some ⟨.truncate, ['t']⟩⟩
    let logs : State := { State.atRoot .empty with volume :=
      { Volume.ofTree (Tree.empty.set [['l']] (.file .empty)) with log := some ⟨[['l']], .info⟩ } }
    Environment.plain.config.parse "pwd > t".toList = .ok [pwd] ∧
      passedOn [pwd] = [⟨.pwd, ⟨[], []⟩, none⟩, ⟨.cat, ⟨[], []⟩, some ⟨.truncate, ['t']⟩⟩] ∧
      ReadsNoRecords .plain [pwd] logs ∧
      Shell.SameEnd (State.Alike logs.volume.HidesStages [] []) (execute .plain [pwd] logs)
        (execute .plain (passedOn [pwd]) logs) := by
  intro pwd logs
  have parsed : Environment.plain.config.parse "pwd > t".toList = .ok [pwd] := by rfl
  have fixed : ∀ last ∈ [pwd].getLast?, last.redirection = none ∨ last.command ≠ .cd := by
    rintro last ⟨⟩
    exact .inr (by decide)
  have quiet : ReadsNoRecords .plain [pwd] logs :=
    .inr (stagesSpareLog_of_reads (by simp [pwd, Command.reads]))
  exact ⟨parsed, rfl, quiet, (execute_passedOn .plain parsed rfl fixed logs quiet).2.2⟩

end FileShell
