import FileShell.Proofs.Shell.Refusals
import FileShell.Proofs.Volume.Directories

/-! # Making directories

The operands of `mkdir` are made one after the other, each with the missing directories above it,
and the first one that exists already or cannot be made ends the run. An operand may have come into
being with another one before it.

* **`grown_made`**, **`makeEach_grown`** — an operand, and a run, only add directories on the way to
  the operands, however they end.
* **`makeEach_append`**, **`exists_of_makeEach_eq_error`** — a run is cut at an operand, and a
  failure is the failure of one.
* **`mkdir_only_adds`** — a line with this command. -/

namespace FileShell

variable {fresh fresh' : Location → Prop} {s s' s'' : State} {path : Path} {paths : List Path}

/-! ## States that have grown -/

/-- **Nothing but directories has come to the files**, and nothing else has happened. -/
structure State.Grown (fresh : Location → Prop) (s s' : State) : Prop where
  volume : s.volume.Grown fresh s'.volume
  session : s'.session = s.session
  console : s'.console = s.console

namespace State.Grown

theorem refl (fresh : Location → Prop) (s : State) : s.Grown fresh s := ⟨.refl fresh _, rfl, rfl⟩

theorem trans (h : s.Grown fresh s') (h' : s'.Grown fresh s'') : s.Grown fresh s'' :=
  ⟨h.volume.trans h'.volume, h'.session.trans h.session, h'.console.trans h.console⟩

theorem mono (h : s.Grown fresh s') (wider : ∀ m, fresh m → fresh' m) : s.Grown fresh' s' :=
  ⟨h.volume.mono wider, h.session, h.console⟩

/-- A record adds nothing. -/
theorem logged (h : s.Grown fresh s') (level : Level) (t : Text) :
    s.Grown fresh (s'.logged level t) :=
  ⟨h.volume.logged _, h.session, h.console⟩

end State.Grown

/-- **On the way to one of some paths**: at its location, or at one above. -/
def Leads (paths : List Path) (l : Location) : Prop := ∃ p ∈ paths, l <+: p.names

/-! ## One operand -/

/-- The state after a directory was made. -/
def State.made (s : State) (path : Path) : State :=
  { s with volume := (s.volume.createDirectory path).2 }.logged .info (madeText path)

/-- A run ends at an operand that exists already, and nothing is changed. -/
theorem makeEach_of_present (h : s.volume.stat path ≠ .missing) (rest : List Path) :
    makeEach (path :: rest) s =
      .error (.execution (.cannot Command.mkdir.name .makeDirectory path .alreadyExists)) s := by
  rw [makeEach, Shell.bind_of_ok (Shell.stat_apply path s), if_pos h]
  rfl

/-- A run goes on after an operand that was missing and could be made. -/
theorem makeEach_of_missing (h : s.volume.stat path = .missing)
    (made : (s.volume.createDirectory path).1 = .ok ()) (rest : List Path) :
    makeEach (path :: rest) s = makeEach rest (s.made path) := by
  have hattempt : Shell.attempt (·.createDirectory path) s =
      .ok (.ok ()) { s with volume := (s.volume.createDirectory path).2 } := by
    rw [Shell.attempt_apply, made]
  rw [makeEach, Shell.bind_of_ok (Shell.stat_apply path s), if_neg (by simp [h])]
  exact Shell.bind_of_ok hattempt

/-- **An operand is made, and the run goes on, or the run ends**, whatever operands are left. It
goes on if nothing is found there and the directory can be made. -/
theorem makeEach_cons (path : Path) (s : State) :
    (s.volume.stat path = .missing ∧ (s.volume.createDirectory path).1 = .ok () ∧
      ∀ rest, makeEach (path :: rest) s = makeEach rest (s.made path)) ∨
    ∃ obstacle v, (v = s.volume ∨ v = (s.volume.createDirectory path).2) ∧
      ∀ rest, makeEach (path :: rest) s =
        .error (.execution (.cannot Command.mkdir.name .makeDirectory path obstacle))
          { s with volume := v } := by
  by_cases hstat : s.volume.stat path = .missing
  · rcases hmake : (s.volume.createDirectory path).1 with e | ⟨⟨⟩⟩
    · refine .inr ⟨.failed e, _, .inr rfl, fun rest => ?_⟩
      have hattempt : Shell.attempt (·.createDirectory path) s =
          .ok (.error e) { s with volume := (s.volume.createDirectory path).2 } := by
        rw [Shell.attempt_apply, hmake]
      rw [makeEach, Shell.bind_of_ok (Shell.stat_apply path s), if_neg (by simp [hstat])]
      exact Shell.bind_of_ok hattempt
    · exact .inl ⟨hstat, rfl, makeEach_of_missing hstat hmake⟩
  · exact .inr ⟨.alreadyExists, s.volume, .inl rfl, makeEach_of_present hstat⟩

/-- An attempt to make a directory by a normal path adds directories on the way to it. -/
theorem grown_attempted (linkless : s.volume.tree.Linkless) (normal : path.IsNormal) :
    s.Grown (· <+: path.names) { s with volume := (s.volume.createDirectory path).2 } :=
  ⟨Volume.grown_createDirectory linkless normal, rfl, rfl⟩

/-- So does a directory that was made and recorded. -/
theorem grown_made (linkless : s.volume.tree.Linkless) (normal : path.IsNormal) :
    s.Grown (· <+: path.names) (s.made path) := (grown_attempted linkless normal).logged _ _

/-- A directory that was made is found. -/
theorem stat_made (linkless : s.volume.tree.Linkless) (normal : path.IsNormal)
    (visible : s.volume.interference.refusal .stat path = none)
    (h : (s.volume.createDirectory path).1 = .ok ()) :
    (s.made path).volume.stat path = .directory :=
  (Volume.stat_logged_eq_directory _ _ _).2
    (Volume.stat_of_createDirectory linkless normal visible h)

/-! ## Runs -/

/-- **A run only adds directories** on the way to its operands, however it ends. -/
theorem makeEach_grown (linkless : s.volume.tree.Linkless) (normal : ∀ p ∈ paths, p.IsNormal) :
    s.Grown (Leads paths) (Shell.reached (makeEach paths s)) := by
  -- the state grows with every operand, and links cannot come into being on the way
  induction paths generalizing s with
  | nil => exact .refl _ s
  | cons path rest ih =>
    have hpath : path.IsNormal := normal path List.mem_cons_self
    have hmade : s.Grown (Leads (path :: rest)) (s.made path) :=
      (grown_made linkless hpath).mono fun m hm => ⟨path, List.mem_cons_self, hm⟩
    rcases makeEach_cons path s with ⟨-, -, hgo⟩ | ⟨obstacle, v, hv, hend⟩
    · rw [hgo]
      have hrest := ih (hmade.volume.linkless linkless) fun p hp => normal p (List.mem_cons_of_mem _ hp)
      exact hmade.trans (hrest.mono fun m ⟨p, hp, hm⟩ => ⟨p, List.mem_cons_of_mem _ hp, hm⟩)
    · rw [hend]
      rcases hv with rfl | rfl
      · exact .refl _ s
      · exact (grown_attempted linkless hpath).mono fun m hm => ⟨path, List.mem_cons_self, hm⟩

/-- **A run that ends well has made every operand.** -/
theorem stat_of_makeEach (linkless : s.volume.tree.Linkless) (normal : ∀ p ∈ paths, p.IsNormal)
    (visible : ∀ p, s.volume.interference.refusal .stat p = none)
    (h : makeEach paths s = .ok () s') : ∀ p ∈ paths, s'.volume.stat p = .directory := by
  induction paths generalizing s with
  | nil => exact nofun
  | cons path rest ih =>
    have hpath : path.IsNormal := normal path List.mem_cons_self
    have hrest : ∀ p ∈ rest, p.IsNormal := fun p hp => normal p (List.mem_cons_of_mem _ hp)
    rcases makeEach_cons path s with ⟨-, hmake, hgo⟩ | ⟨obstacle, v, -, hend⟩
    · rw [hgo] at h
      have hmade := grown_made linkless hpath
      have linkless' := hmade.volume.linkless linkless
      intro p hp
      rcases List.mem_cons.1 hp with rfl | hp
      -- the directory is there after its own turn, and the operands behind it only add others
      · have later := makeEach_grown linkless' hrest
        rw [h] at later
        exact later.volume.stat_eq_directory linkless' hpath
          (stat_made linkless hpath (visible p) hmake)
      · exact ih linkless' hrest (by rw [hmade.volume.interference]; exact visible) h p hp
    · rw [hend] at h
      cases h

/-- **A run that ends well has found nothing at any operand** when it was reached. -/
theorem missing_of_makeEach {before after : List Path}
    (h : makeEach (before ++ path :: after) s = .ok () s') :
    ∃ s₁, makeEach before s = .ok () s₁ ∧ s₁.volume.stat path = .missing := by
  induction before generalizing s with
  | nil =>
    rcases makeEach_cons path s with ⟨hstat, -, -⟩ | ⟨obstacle, v, -, hend⟩
    · exact ⟨s, rfl, hstat⟩
    · rw [List.nil_append, hend] at h
      cases h
  | cons first before ih =>
    rcases makeEach_cons first s with ⟨-, -, hgo⟩ | ⟨obstacle, v, -, hend⟩
    · rw [List.cons_append, hgo] at h
      rw [hgo]
      exact ih h
    · rw [List.cons_append, hend] at h
      cases h

/-- A run goes on where the operands before were made. -/
theorem makeEach_append {before : List Path} (h : makeEach before s = .ok () s')
    (later : List Path) : makeEach (before ++ later) s = makeEach later s' := by
  induction before generalizing s with
  | nil =>
    cases h
    rfl
  | cons first before ih =>
    rcases makeEach_cons first s with ⟨-, -, hgo⟩ | ⟨obstacle, v, -, hend⟩
    · rw [hgo] at h
      rw [List.cons_append, hgo]
      exact ih h
    · rw [hend] at h
      cases h

/-- **A run that fails does so at one of its operands**, after those before it were made and
whatever stands behind it. -/
theorem exists_of_makeEach_eq_error {e : Failure} (h : makeEach paths s = .error e s') :
    ∃ before p after obstacle s₁, paths = before ++ p :: after ∧
      e = .execution (.cannot Command.mkdir.name .makeDirectory p obstacle) ∧
      makeEach before s = .ok () s₁ ∧ ∀ later, makeEach (p :: later) s₁ = .error e s' := by
  induction paths generalizing s with
  | nil => cases h
  | cons path rest ih =>
    rcases makeEach_cons path s with ⟨-, -, hgo⟩ | ⟨obstacle, v, -, hend⟩
    · rw [hgo] at h
      obtain ⟨before, p, after, obstacle, s₁, rfl, he, hbefore, hlater⟩ := ih h
      exact ⟨path :: before, p, after, obstacle, s₁, rfl, he, by rw [hgo, hbefore], hlater⟩
    · rw [hend] at h
      cases h
      exact ⟨[], path, rest, obstacle, s, rfl, rfl, rfl, hend⟩

/-- **A failure leaves the directories that were made before it.** -/
theorem stat_of_makeEach_eq_error {before : List Path} {e : Failure} {s₁ : State}
    (linkless : s.volume.tree.Linkless) (normal : ∀ p ∈ before ++ [path], p.IsNormal)
    (visible : ∀ p, s.volume.interference.refusal .stat p = none)
    (made : makeEach before s = .ok () s₁) (h : makeEach [path] s₁ = .error e s') :
    ∀ p ∈ before, s'.volume.stat p = .directory := by
  have hbefore : ∀ p ∈ before, p.IsNormal := fun p hp => normal p (List.mem_append_left _ hp)
  have linkless₁ : s₁.volume.tree.Linkless := by
    have grown := makeEach_grown linkless hbefore
    rw [made] at grown
    exact grown.volume.linkless linkless
  have grown := makeEach_grown linkless₁ fun p (hp : p ∈ [path]) =>
    normal p (List.mem_append_right _ hp)
  rw [h] at grown
  exact fun p hp => grown.volume.stat_eq_directory linkless₁ (hbefore p hp)
    (stat_of_makeEach linkless hbefore visible made p hp)

/-! ## Lines -/

section

variable {env : Environment} {a : Arguments}

/-- The directories that a stage is to make, in the order of its operands. -/
def Arguments.directories (a : Arguments) (session : Session) : List Path :=
  a.operands.map fun operand => session.resolve operand.word

/-- **A stage of this command is bound** to the paths of its operands. -/
theorem bindStage_mkdir (env : Environment) (suits : a.Suits Command.mkdir.signature)
    (piped : Option Text) (s : State) :
    ∃ call, bindStage env ⟨.mkdir, a, none⟩ piped s = .ok call s ∧
      call.paths = a.directories s.session := by
  have hsingle (operand : Operand) (hmem : operand ∈ a.operands) :
      ∃ word, operand = .path word .single := by
    obtain ⟨i, hi⟩ := List.mem_iff_getElem?.1 hmem
    have hsuits : operand.Suits .single := suits.operands i operand hi
    cases operand with
    | literal word => cases hsuits
    | path word kind =>
      cases kind with
      | single => exact ⟨word, rfl⟩
      | wildcard => cases hsuits.2.2 rfl
  have hbound : s.session.bindOperands s.volume (env.config.matchScope Command.mkdir.name)
      Command.mkdir.name Command.mkdir.signature a.operands.length 0 a.operands = .ok _ :=
    bindOperands_single hsingle fun _ => nofun
  have hbind : s.session.bind s.volume (env.config.matchScope Command.mkdir.name)
      Command.mkdir.name Command.mkdir.signature a piped =
        .ok ⟨a.options, a.operands.map fun operand => .path (s.session.resolve operand.word),
          piped⟩ := by
    rw [Session.bind, hbound]
    rfl
  refine ⟨_, by rw [bindStage, hbind]; rfl, ?_⟩
  rw [Call.paths, List.flatMap_map, Arguments.directories, List.map_eq_flatMap]
  rfl

/-- The state in which a line's only stage begins to make directories. -/
def State.begun (s : State) (line : Text) : State :=
  (s.logged .info (lineRecord line)).logged .info (stageRecord 1 1 .mkdir)

/-- Nothing has happened until then. -/
theorem undisturbed_begun (s : State) (line : Text) : s.Undisturbed (s.begun line) :=
  ((State.Undisturbed.refl s).logged _ _).logged _ _

/-- **The stage of a line with this command** makes the directories of its operands from there
on. -/
theorem execute_mkdir {line : Text} (parsed : env.config.parse line = .ok [⟨.mkdir, a, none⟩])
    (s : State) :
    execute env [⟨.mkdir, a, none⟩] (s.logged .info (lineRecord line)) =
      makeEach (a.directories s.session) (s.begun line) := by
  obtain ⟨call, hbind, hpaths⟩ :=
    bindStage_mkdir env (suits_of_parse parsed) none (s.logged .info (lineRecord line))
  have hstage : runStage env 1 1 ⟨.mkdir, a, none⟩ none (s.logged .info (lineRecord line)) =
      (makeEach (a.directories s.session) >>= fun _ => pure [] : Shell Text) (s.begun line) := by
    rw [runStage_of_bindStage hbind]
    change (makeEach call.paths >>= fun _ => pure [] : Shell Text) (s.begun line) = _
    rw [hpaths]
    rfl
  rw [execute, List.length_singleton, runStages_singleton, runLast]
  rcases hmake : makeEach (a.directories s.session) (s.begun line) with ⟨⟨⟩, s'⟩ | ⟨e, s'⟩
  · rw [Shell.bind_of_ok hmake] at hstage
    rw [Shell.bind_of_ok hstage]
    rfl
  · rw [Shell.bind_of_error hmake] at hstage
    rw [Shell.bind_of_error hstage]

/-- The whole line adds a record of a failure. -/
theorem runLine_mkdir {line : Text} (parsed : env.config.parse line = .ok [⟨.mkdir, a, none⟩])
    (s : State) :
    runLine env line s =
      match makeEach (a.directories s.session) (s.begun line) with
      | .ok _ s' => .ok () s'
      | .error .halt s' => .error .halt s'
      | .error failure s' => .error failure
          (s'.logged .warning (failure.label ++ " error: ".toList ++ failure.message)) := by
  have hline := runLine_of_parse_eq_ok parsed s
  rw [execute_mkdir parsed] at hline
  exact hline

/-- **A line that is repeated** finds its first directory there and changes nothing. -/
theorem runLine_mkdir_again {line : Text} {rest : List Path}
    (parsed : env.config.parse line = .ok [⟨.mkdir, a, none⟩])
    (hpaths : a.directories s.session = path :: rest) (there : s.volume.stat path = .directory) :
    ∃ s', runLine env line s = .error
        (.execution (.cannot Command.mkdir.name .makeDirectory path .alreadyExists)) s' ∧
      s.Undisturbed s' := by
  have undisturbed := undisturbed_begun s line
  have there' : (s.begun line).volume.stat path = .directory :=
    (Volume.stat_eq_directory_congr undisturbed.volume.ways undisturbed.volume.interference).2 there
  rw [runLine_mkdir parsed, hpaths, makeEach_of_present (by rw [there']; decide)]
  exact ⟨_, rfl, undisturbed.logged _ _⟩

/-- The directories of a stage are normal paths in an absolute working directory. -/
theorem isNormal_directories {session : Session} (absolute : session.cwd.isAbsolute = true) :
    ∀ p ∈ a.directories session, p.IsNormal := by
  intro p hp
  obtain ⟨operand, -, rfl⟩ := List.mem_map.1 hp
  exact isNormal_resolve absolute operand.word

/-- A run at the beginning of a stage only adds directories to what the line has found. -/
theorem makeEach_begun_grown (line : Text) (linkless : s.volume.tree.Linkless)
    (normal : ∀ p ∈ paths, p.IsNormal) :
    s.Grown (Leads paths) (Shell.reached (makeEach paths (s.begun line))) := by
  have hbegun : s.Grown (Leads paths) (s.begun line) := ((State.Grown.refl _ s).logged _ _).logged _ _
  exact hbegun.trans (makeEach_grown (hbegun.volume.linkless linkless) normal)

section

variable {line : Text}

/-- A line that ends well has made all directories. -/
theorem makeEach_of_runLine_eq_ok (parsed : env.config.parse line = .ok [⟨.mkdir, a, none⟩])
    (run : runLine env line s = .ok () s') :
    makeEach (a.directories s.session) (s.begun line) = .ok () s' := by
  rw [← execute_mkdir parsed, execute_of_runLine_eq_ok parsed run]

/-- A line that fails has failed at one of the directories, after those before it were made. -/
theorem exists_of_runLine_mkdir_eq_error {e : Failure}
    (parsed : env.config.parse line = .ok [⟨.mkdir, a, none⟩])
    (run : runLine env line s = .error e s') :
    ∃ before p after obstacle s₁ s₂, a.directories s.session = before ++ p :: after ∧
      e = .execution (.cannot Command.mkdir.name .makeDirectory p obstacle) ∧
      makeEach before (s.begun line) = .ok () s₁ ∧
      (∀ later, makeEach (p :: later) s₁ = .error e s₂) ∧
      s' = s₂.logged .warning (e.label ++ " error: ".toList ++ e.message) := by
  obtain ⟨s₂, hexecute, hs'⟩ := execute_of_runLine_eq_error parsed run
  rw [execute_mkdir parsed] at hexecute
  obtain ⟨before, p, after, obstacle, s₁, hpaths, rfl, hbefore, hp⟩ :=
    exists_of_makeEach_eq_error hexecute
  exact ⟨before, p, after, obstacle, s₁, s₂, hpaths, rfl, hbefore, hp,
    hs'.resolve_left fun hhalt => nomatch hhalt.1⟩

/-- **A line only adds directories**, however it ends. -/
theorem runLine_mkdir_grown (parsed : env.config.parse line = .ok [⟨.mkdir, a, none⟩])
    (absolute : s.session.cwd.isAbsolute = true) (linkless : s.volume.tree.Linkless) :
    s.Grown (Leads (a.directories s.session)) (Shell.reached (runLine env line s)) := by
  have grown := makeEach_begun_grown line linkless (isNormal_directories (a := a) absolute)
  rcases hrun : runLine env line s with ⟨⟨⟩, s'⟩ | ⟨e, s'⟩
  · rw [makeEach_of_runLine_eq_ok parsed hrun] at grown
    exact grown
  · obtain ⟨before, p, after, obstacle, s₁, s₂, hpaths, -, hbefore, hp, rfl⟩ :=
      exists_of_runLine_mkdir_eq_error parsed hrun
    rw [hpaths] at grown ⊢
    rw [makeEach_append hbefore, hp] at grown
    exact grown.logged _ _

end

/-- **Making directories only adds directories.** On files without links, where no operation is
refused, a line that makes directories leaves all that was there as it was and adds nothing but
directories at its operands and above them, whether it ends well or not.

If it ends well, every operand is a directory, there was nothing when it was reached, and the same
line fails from then on and changes nothing. If it fails, it does so at one operand: all before it
are directories, nothing has come into being on the way to those behind it, and the run would have
been the same with any others in their place. -/
theorem mkdir_only_adds (env : Environment) {line : Text} {a : Arguments} (s : State)
    (parsed : env.config.parse line = .ok [⟨.mkdir, a, none⟩])
    (absolute : s.session.cwd.isAbsolute = true) (linkless : s.volume.tree.Linkless)
    (allowed : ∀ o p, s.volume.interference.refusal o p = none) :
    s.Grown (Leads (a.directories s.session)) (Shell.reached (runLine env line s)) ∧
    (∀ s', runLine env line s = .ok () s' →
      (∀ p ∈ a.directories s.session, s'.volume.stat p = .directory) ∧
      (∀ before p after, a.directories s.session = before ++ p :: after →
        ∃ s₁, makeEach before (s.begun line) = .ok () s₁ ∧ s₁.volume.stat p = .missing) ∧
      ∃ p s'', runLine env line s' =
          .error (.execution (.cannot Command.mkdir.name .makeDirectory p .alreadyExists)) s'' ∧
        s'.Undisturbed s'') ∧
    ∀ e s', runLine env line s = .error e s' →
      ∃ before p after obstacle, a.directories s.session = before ++ p :: after ∧
        e = .execution (.cannot Command.mkdir.name .makeDirectory p obstacle) ∧
        (∀ q ∈ before, s'.volume.stat q = .directory) ∧
        s.Grown (Leads (before ++ [p])) s' ∧
        ∃ s₁, (∀ later, makeEach (before ++ p :: later) (s.begun line) = .error e s₁) ∧
          s' = s₁.logged .warning (e.label ++ " error: ".toList ++ e.message) := by
  have normal := isNormal_directories (a := a) absolute
  have undisturbed := undisturbed_begun s line
  have linkless' : (s.begun line).volume.tree.Linkless := linkless.congr undisturbed.volume.ways
  have visible (p : Path) : (s.begun line).volume.interference.refusal .stat p = none := by
    rw [undisturbed.volume.interference, allowed]
  have grown := runLine_mkdir_grown parsed absolute linkless
  refine ⟨grown, fun s' run => ?_, fun e s' run => ?_⟩
  · have hmake := makeEach_of_runLine_eq_ok parsed run
    have there : ∀ p ∈ a.directories s.session, s'.volume.stat p = .directory :=
      stat_of_makeEach linkless' normal visible hmake
    refine ⟨there, fun before p after hpaths => ?_, ?_⟩
    · rw [hpaths] at hmake
      exact missing_of_makeEach hmake
    · -- a line has at least one directory to make
      obtain ⟨p, rest, hpaths⟩ : ∃ p rest, a.directories s.session = p :: rest :=
        List.exists_cons_of_length_pos (by
          rw [Arguments.directories, List.length_map]
          exact (suits_of_parse parsed).enough)
      have hsession : s'.session = s.session := by
        rw [run] at grown
        exact grown.session
      obtain ⟨s'', again, hs''⟩ := runLine_mkdir_again parsed (hsession ▸ hpaths)
        (there p (hpaths ▸ List.mem_cons_self))
      exact ⟨p, s'', again, hs''⟩
  · obtain ⟨before, p, after, obstacle, s₁, s₂, hpaths, he, hbefore, hp, rfl⟩ :=
      exists_of_runLine_mkdir_eq_error parsed run
    have hnormal : ∀ q ∈ before ++ [p], q.IsNormal := by
      intro q hq
      refine normal q (hpaths ▸ ?_)
      rcases List.mem_append.1 hq with hq | hq
      · exact List.mem_append_left _ hq
      · exact List.mem_append_right _ (List.mem_singleton.1 hq ▸ List.mem_cons_self)
    have hdirectories := stat_of_makeEach_eq_error linkless' hnormal visible hbefore (hp [])
    have grown := makeEach_begun_grown line linkless hnormal
    rw [makeEach_append hbefore, hp] at grown
    refine ⟨before, p, after, obstacle, hpaths, he, fun q hq => ?_, grown.logged _ _, s₂,
      fun later => by rw [makeEach_append hbefore, hp], rfl⟩
    exact (Volume.stat_logged_eq_directory _ _ _).2 (hdirectories q hq)

/-- Two directories in one that is missing, made twice, and one below a file. -/
theorem mkdir_only_adds_nested :
    let line : Text := "mkdir a/b a/c".toList
    let line' : Text := "mkdir d f/e g".toList
    let file : Entry := .file (Text.bytes ['x'])
    let s : State := .atRoot (Tree.empty.set [['f']] file)
    ∃ s' s'' obstacle, runLine .plain line s = .ok () s' ∧
      runLine .plain line' s = .error (.execution (.cannot Command.mkdir.name .makeDirectory
        ⟨['/', 'f', '/', 'e']⟩ obstacle)) s'' ∧
      s'.volume.stat ⟨['/', 'a', '/', 'b']⟩ = .directory ∧
      s'.volume.stat ⟨['/', 'a', '/', 'c']⟩ = .directory ∧
      (∃ p s₁, runLine .plain line s' = .error
        (.execution (.cannot Command.mkdir.name .makeDirectory p .alreadyExists)) s₁) ∧
      s'.volume.tree.get? [['f']] = some file ∧ s''.volume.tree.get? [['f']] = some file := by
  intro line line' file s
  have linkless : s.volume.tree.Linkless :=
    Tree.linkless_of_entries (by simp [s, file, State.atRoot, Volume.ofTree, Tree.set, Tree.empty])
  have apart : s.volume.LogApart [['f']] := Volume.logApart_of_log_eq_none rfl _
  let single (word : Text) : Operand := .path word .single
  -- the line that ends well
  have parsed : Environment.plain.config.parse line =
      .ok [⟨.mkdir, ⟨[], [single "a/b".toList, single "a/c".toList]⟩, none⟩] := rfl
  have hpaths : Arguments.directories ⟨[], [single "a/b".toList, single "a/c".toList]⟩ s.session =
      [⟨['/', 'a', '/', 'b']⟩, ⟨['/', 'a', '/', 'c']⟩] := by decide +kernel
  have run : runLine .plain line s =
      .ok () (((s.begun line).made ⟨['/', 'a', '/', 'b']⟩).made ⟨['/', 'a', '/', 'c']⟩) := by
    rw [runLine_mkdir parsed, hpaths, makeEach_of_missing (by decide +kernel) (by decide +kernel),
      makeEach_of_missing (by decide +kernel) (by decide +kernel)]
    rfl
  obtain ⟨grown, made, -⟩ := mkdir_only_adds .plain s parsed rfl linkless fun _ _ => rfl
  rw [run] at grown
  obtain ⟨there, -, p, s₁, again, -⟩ := made _ run
  -- the line that fails
  have parsed' : Environment.plain.config.parse line' =
      .ok [⟨.mkdir, ⟨[], [single ['d'], single "f/e".toList, single ['g']]⟩, none⟩] := rfl
  have hpaths' : Arguments.directories ⟨[], [single ['d'], single "f/e".toList, single ['g']]⟩
      s.session = [⟨['/', 'd']⟩, ⟨['/', 'f', '/', 'e']⟩, ⟨['/', 'g']⟩] := by decide +kernel
  have run' : ∃ obstacle s'', runLine .plain line' s = .error (.execution
      (.cannot Command.mkdir.name .makeDirectory ⟨['/', 'f', '/', 'e']⟩ obstacle)) s'' := by
    rw [runLine_mkdir parsed', hpaths', makeEach_of_missing (by decide +kernel) (by decide +kernel)]
    rcases makeEach_cons ⟨['/', 'f', '/', 'e']⟩ ((s.begun line').made ⟨['/', 'd']⟩) with
      ⟨-, hmake, -⟩ | ⟨obstacle, v, -, hend⟩
    · exact absurd hmake (by decide +kernel)
    · rw [hend]
      exact ⟨_, _, rfl⟩
  obtain ⟨obstacle, s'', run'⟩ := run'
  obtain ⟨grown', -, -⟩ := mkdir_only_adds .plain s parsed' rfl linkless fun _ _ => rfl
  rw [run'] at grown'
  have stands : s.volume.tree.get? [['f']] ≠ none := Option.some_ne_none file
  exact ⟨_, s'', obstacle, run, run', there _ (hpaths ▸ List.mem_cons_self),
    there _ (hpaths ▸ List.mem_cons_of_mem _ List.mem_cons_self), ⟨p, s₁, again⟩,
    grown.volume.kept _ apart stands, grown'.volume.kept _ apart stands⟩

end

end FileShell
