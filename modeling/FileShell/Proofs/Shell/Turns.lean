import FileShell.Proofs.Command.Transferred
import FileShell.Proofs.Shell.Related

/-! # Where a session stands

A session is asked to run lines and to change its working directory, again and again, while others
may change the files and the input (`Session.Request`). What happens to it then happens in
**turns**: a stage that is run, or a change of directory that is asked for (`Turn`). The turns
follow one another with nothing in between (`Session.Passes`), so a session stands where its turns
have led it.

* **`directed_runStage`** — the command that changes the directory leads where it was sent, or
  nowhere.
* **`Turn.lawful_of_standing`** — every other turn leaves the session alone.
* **`standing_afterAll`** — so the working directory is always absolute and normal, and it was a
  directory when it was entered. -/

namespace FileShell

/-! ## Changing the directory -/

namespace Session

variable {session : Session} {v : Volume} {target : Path}

/-- An existing directory is entered by its normal path. -/
theorem changeDirectory_eq_ok (there : v.stat (session.cwd.join target).normalised = .directory) :
    session.changeDirectory v target =
      .ok { session with cwd := (session.cwd.join target).normalised } := by
  simp only [changeDirectory, there]

/-- What is no directory is not entered. -/
theorem changeDirectory_eq_error
    (nowhere : v.stat (session.cwd.join target).normalised ≠ .directory) :
    ∃ e, session.changeDirectory v target = .error e := by
  cases hstat : v.stat (session.cwd.join target).normalised with
  | directory => exact absurd hstat nowhere
  | file =>
    exact ⟨.unreachable (session.cwd.join target).normalised .notDirectory,
      by simp only [changeDirectory, hstat]⟩
  | missing =>
    exact ⟨.unreachable (session.cwd.join target).normalised .missing,
      by simp only [changeDirectory, hstat]⟩

/-- **Where the command that changes the directory leads**: to what its operand names, and home
without one. -/
def destination (session : Session) (a : Arguments) : Path :=
  match a.operands.head? with
  | some operand => session.resolve operand.word
  | none => session.home

/-- It leads to a normal path. -/
theorem isNormal_destination (absolute : session.cwd.isAbsolute = true)
    (home : session.home.IsNormal) (a : Arguments) : (session.destination a).IsNormal := by
  unfold destination
  split
  · exact isNormal_resolve absolute _
  · exact home

end Session

section

variable {call : Call} {p : Path} {s : State}

/-- A normal path to a directory is where the command goes. -/
theorem changeDirectory_of_directory (normal : p.IsNormal)
    (target : call.paths.head?.getD s.session.home = p) (there : s.volume.stat p = .directory) :
    changeDirectory call s = .ok [] { s with session := { s.session with cwd := p } } := by
  have hpath : (s.session.cwd.join p).normalised = p := normal.normalised_join
  have hmoved : s.session.changeDirectory s.volume p =
      .ok { s.session with cwd := (s.session.cwd.join p).normalised } :=
    Session.changeDirectory_eq_ok (hpath.symm ▸ there)
  rw [changeDirectory, target, hmoved, hpath]

/-- It goes nowhere else. -/
theorem changeDirectory_of_ne_directory (normal : p.IsNormal)
    (target : call.paths.head?.getD s.session.home = p) (nowhere : s.volume.stat p ≠ .directory) :
    ∃ e, changeDirectory call s = .error e s := by
  have hpath : (s.session.cwd.join p).normalised = p := normal.normalised_join
  obtain ⟨e, hfails⟩ := Session.changeDirectory_eq_error (hpath.symm ▸ nowhere)
  exact ⟨.execution e, by rw [changeDirectory, target, hfails]⟩

end

/-- The command takes a single path, or nothing. -/
theorem operands_of_suits_cd {a : Arguments} (suits : a.Suits Command.cd.signature) :
    a.operands = [] ∨ ∃ word, a.operands = [.path word .single] := by
  rcases hoperands : a.operands with _ | ⟨operand, rest⟩
  · exact .inl rfl
  · have hlength : a.operands.length ≤ 1 := suits.notTooMany 1 rfl
    obtain rfl : rest = [] := by simpa [hoperands] using hlength
    have hsuits : operand.Suits .directory := suits.operands 0 operand (by rw [hoperands]; rfl)
    cases operand with
    | literal word => cases hsuits
    | path word kind =>
      cases kind with
      | single => exact .inr ⟨word, rfl⟩
      | wildcard => cases hsuits.2.2 rfl

/-- **A word is bound by the command** if it names a directory, and nothing else is checked. -/
theorem bind_cd (session : Session) (v : Volume) (scope : MatchScope) (options : List Text)
    (word : Text) (piped : Option Text) :
    session.bind v scope Command.cd.name Command.cd.signature ⟨options, [.path word .single]⟩ piped =
      if v.stat (session.resolve word) = .directory then
        .ok ⟨options, [.path (session.resolve word)], piped⟩
      else .error (.argument (.notDirectory Command.cd.name word)) := by
  by_cases there : v.stat (session.resolve word) = .directory
  · have hoperand : session.bindOperand v scope Command.cd.name .directory (.path word .single) =
        .ok (.path (session.resolve word)) := if_neg fun h => h.2 there
    rw [if_pos there]
    exact Outcome.bind_eq_ok.2 ⟨_, Outcome.bind_eq_ok.2 ⟨_, hoperand, rfl⟩, rfl⟩
  · have hoperand : session.bindOperand v scope Command.cd.name .directory (.path word .single) =
        .error (.argument (.notDirectory Command.cd.name word)) := if_pos ⟨rfl, there⟩
    rw [if_neg there]
    exact Outcome.bind_eq_error.2 (.inl (Outcome.bind_eq_error.2 (.inl hoperand)))

/-- **What a stage that changes the directory comes to**, from the state in which it begins. It ends
at its destination, if that is a directory, and has no output. Otherwise it fails, and neither the
session nor the console nor any file but that of the log has changed. -/
inductive Directed (r : Text) (a : Arguments) (s : State) :
    EStateM.Result Failure State Text → Prop
  | moved (there : s.volume.stat (s.session.destination a) = .directory) :
      Directed r a s (.ok [] { s.logged .info r with
        session := { s.session with cwd := s.session.destination a } })
  /-- An operand that names no directory is found out about before the stage begins. -/
  | unbound (e : Failure) (named : a.operands ≠ [])
      (nowhere : s.volume.stat (s.session.destination a) ≠ .directory) :
      Directed r a s (.error e s)
  /-- A home that is no directory is found out about by the command itself. -/
  | homeless (e : Failure) (bare : a.operands = [])
      (nowhere : s.volume.stat (s.session.destination a) ≠ .directory) :
      Directed r a s (.error e (s.logged .info r))

section

variable {env : Environment} {total number : Nat} {stage : Stage} {piped : Option Text}
  {s s' : State} {call : Call}

/-- **Such a stage is bound to its destination**, if it is bound at all: an operand has to name a
directory. -/
theorem bindStage_cd (cd : stage.command = .cd)
    (suits : stage.arguments.Suits stage.command.signature) :
    (∃ call, bindStage env stage piped s = .ok call s ∧
        call.paths.head?.getD s.session.home = s.session.destination stage.arguments ∧
        (stage.arguments.operands ≠ [] →
          s.volume.stat (s.session.destination stage.arguments) = .directory)) ∨
      ∃ e, bindStage env stage piped s = .error e s ∧ stage.arguments.operands ≠ [] ∧
        s.volume.stat (s.session.destination stage.arguments) ≠ .directory := by
  obtain ⟨command, ⟨options, operands⟩, redirection⟩ := stage
  obtain rfl : command = .cd := cd
  rcases operands_of_suits_cd suits with hoperands | ⟨word, hoperands⟩
  · obtain rfl : operands = [] := hoperands
    exact .inl ⟨⟨options, [], piped⟩, rfl, rfl, fun h => absurd rfl h⟩
  · obtain rfl : operands = [.path word .single] := hoperands
    by_cases there : s.volume.stat (s.session.resolve word) = .directory
    · exact .inl ⟨_, by rw [bindStage, bind_cd, if_pos there, Shell.ofExcept], rfl, fun _ => there⟩
    · exact .inr ⟨_, by rw [bindStage, bind_cd, if_neg there, Shell.ofExcept],
        List.cons_ne_nil _ _, there⟩

/-- **A stage that changes the directory leads where it was sent**, or nowhere. -/
theorem directed_runStage (cd : stage.command = .cd)
    (suits : stage.arguments.Suits stage.command.signature)
    (absolute : s.session.cwd.isAbsolute = true) (home : s.session.home.IsNormal) :
    Directed (stageRecord number total stage.command) stage.arguments s
      (runStage env total number stage piped s) := by
  have normal : (s.session.destination stage.arguments).IsNormal :=
    s.session.isNormal_destination absolute home stage.arguments
  -- the record that is made before the second look does not change what it finds
  have hlogged := s.volume.stat_logged_eq_directory
    ⟨.info, stageRecord number total stage.command⟩ (s.session.destination stage.arguments)
  rw [runStage]
  rcases bindStage_cd cd suits with ⟨call, hbind, htarget, hnamed⟩ | ⟨e, hbind, hnamed, nowhere⟩
  · rw [Shell.bind_of_ok hbind, Shell.bind_of_ok (Shell.record_apply _ _ s),
      show stage.command.run env call = changeDirectory call by rw [cd]; rfl]
    by_cases there : s.volume.stat (s.session.destination stage.arguments) = .directory
    · rw [changeDirectory_of_directory (s := s.logged .info _) normal htarget (hlogged.2 there)]
      exact .moved there
    · obtain ⟨e, hrun⟩ := changeDirectory_of_ne_directory (s := s.logged .info _) normal htarget
        (mt hlogged.1 there)
      rw [hrun]
      exact .homeless e (by_contra fun named => there (hnamed named)) there
  · rw [Shell.bind_of_error hbind]
    exact .unbound e hnamed nowhere

/-- **What is found while a stage is bound is enough for its command**: once it is bound to an
operand, the command goes through wherever a second look finds the same. -/
theorem run_of_bindStage_cd (cd : stage.command = .cd)
    (suits : stage.arguments.Suits stage.command.signature) (named : stage.arguments.operands ≠ [])
    (absolute : s.session.cwd.isAbsolute = true) (home : s.session.home.IsNormal)
    (h : bindStage env stage piped s = .ok call s') {t : State} (session : t.session = s.session)
    (same : t.volume.stat (s.session.destination stage.arguments) =
      s.volume.stat (s.session.destination stage.arguments)) :
    Command.cd.run env call t = .ok [] { t with
      session := { t.session with cwd := s.session.destination stage.arguments } } := by
  rcases bindStage_cd cd suits with ⟨call', hbind, htarget, hnamed⟩ | ⟨e, hbind, -, -⟩
  · obtain rfl : call' = call := by
      rw [hbind] at h
      cases h
      rfl
    have normal : (s.session.destination stage.arguments).IsNormal :=
      s.session.isNormal_destination absolute home stage.arguments
    exact changeDirectory_of_directory normal (by rw [session, htarget]) (same.trans (hnamed named))
  · rw [hbind] at h
    cases h

end

/-! ## Sessions that stand firm -/

/-- **A session stands firm**: its working directory is absolute, no dots are left in it, a dot
names it, and its home is the given one. -/
structure Session.Standing (home : Path) (session : Session) : Prop where
  absolute : session.cwd.isAbsolute = true
  dotless : ∀ piece ∈ session.cwd.text.pieces '/', piece ≠ ['.'] ∧ piece ≠ ['.', '.']
  normalised : session.cwd.normalised = session.cwd
  here : session.resolve ['.'] = session.cwd
  home : session.home = home

namespace Session

variable {session : Session} {home : Path}

/-- A session stands firm in a directory with a normal path. -/
theorem standing_of_isNormal (cwd : session.cwd.IsNormal) (own : session.home = home) :
    session.Standing home where
  absolute := cwd.isAbsolute
  dotless := cwd.pieces_ne
  normalised := cwd.normalised
  here := resolve_dot cwd session.home
  home := own

end Session

/-! ## Turns -/

/-- **A turn of a session**, with the state in which it begins. -/
inductive Turn
  /-- A stage that is run, with its number out of a total, on what is piped to it. -/
  | run (env : Environment) (total number : Nat) (stage : Stage) (piped : Option Text)
    (before : State)
  /-- A directory that the session is asked to change to. -/
  | change (target : Path) (before : State)

namespace Turn

/-- The state in which a turn begins. -/
def before : Turn → State
  | .run _ _ _ _ _ s => s
  | .change _ s => s

/-- **What a turn comes to.** -/
def result : Turn → EStateM.Result Failure State Text
  | .run env total number stage piped s => runStage env total number stage piped s
  | .change target s =>
    match s.session.changeDirectory s.volume target with
    | .ok session => .ok [] { s with session }
    | .error e => .error (.execution e) s

/-- The state that a turn leads to. -/
def after (turn : Turn) : State := Shell.reached turn.result

/-- Whether the arguments of a turn's stage fit its command. -/
def Suits : Turn → Prop
  | .run _ _ _ stage _ _ => stage.arguments.Suits stage.command.signature
  | .change _ _ => True

/-- **What a turn may do to its session.** -/
inductive Lawful : Turn → Prop
  /-- Any stage but one leaves the session alone. -/
  | aside {env : Environment} {total number : Nat} {stage : Stage} {piped : Option Text} {s : State}
      (other : stage.command ≠ .cd)
      (same : (Shell.reached (runStage env total number stage piped s)).session = s.session) :
      Lawful (.run env total number stage piped s)
  /-- That one leads to its destination or nowhere, and the command does not fail where its operand
  could be bound. -/
  | directed {env : Environment} {total number : Nat} {stage : Stage} {piped : Option Text}
      {s : State} (cd : stage.command = .cd)
      (ends : Directed (stageRecord number total stage.command) stage.arguments s
        (runStage env total number stage piped s))
      (certain : stage.arguments.operands ≠ [] →
        ∀ call s', bindStage env stage piped s = .ok call s' → ∀ t : State, t.session = s.session →
          t.volume.stat (s.session.destination stage.arguments) =
            s.volume.stat (s.session.destination stage.arguments) →
          Command.cd.run env call t = .ok [] { t with
            session := { t.session with cwd := s.session.destination stage.arguments } }) :
      Lawful (.run env total number stage piped s)
  /-- A directory that was asked for is entered by its normal path. -/
  | moved {target : Path} {s : State}
      (there : s.volume.stat (s.session.cwd.join target).normalised = .directory)
      (ends : (Turn.change target s).result = .ok [] { s with
        session := { s.session with cwd := (s.session.cwd.join target).normalised } }) :
      Lawful (.change target s)
  /-- What is no directory is not entered. -/
  | refused {target : Path} {s : State} (e : Failure)
      (nowhere : s.volume.stat (s.session.cwd.join target).normalised ≠ .directory)
      (ends : (Turn.change target s).result = .error e s) : Lawful (.change target s)

variable {turn : Turn} {home : Path}

/-- **A turn is lawful if it begins in a session that stands firm.** -/
theorem lawful_of_standing (normal : home.IsNormal) (suits : turn.Suits)
    (standing : turn.before.session.Standing home) : turn.Lawful := by
  cases turn with
  | run env total number stage piped s =>
    have standing : s.session.Standing home := standing
    have own : s.session.home.IsNormal := standing.home.symm ▸ normal
    by_cases cd : stage.command = .cd
    · exact .directed cd (directed_runStage cd suits standing.absolute own)
        fun named call s' hbind t session same =>
          run_of_bindStage_cd cd suits named standing.absolute own hbind session same
    · exact .aside cd (Shell.session_runStage cd s)
  | change target s =>
    by_cases there : s.volume.stat (s.session.cwd.join target).normalised = .directory
    · exact .moved there (by rw [result, Session.changeDirectory_eq_ok there])
    · obtain ⟨e, hfails⟩ := Session.changeDirectory_eq_error there
      exact .refused (.execution e) there (by rw [result, hfails])

/-- **A lawful turn leads to a session that stands firm** again. -/
theorem Lawful.standing (lawful : turn.Lawful) (normal : home.IsNormal)
    (standing : turn.before.session.Standing home) : turn.after.session.Standing home := by
  cases lawful with
  | @aside env total number stage piped s other same =>
    change (Shell.reached (runStage env total number stage piped s)).session.Standing home
    rw [same]
    exact standing
  | @directed env total number stage piped s cd ends certain =>
    have standing : s.session.Standing home := standing
    have own : s.session.home.IsNormal := standing.home.symm ▸ normal
    change (Shell.reached (runStage env total number stage piped s)).session.Standing home
    generalize runStage env total number stage piped s = result at ends
    cases ends with
    | moved there =>
      exact Session.standing_of_isNormal
        (s.session.isNormal_destination standing.absolute own stage.arguments) standing.home
    | unbound e named nowhere => exact standing
    | homeless e bare nowhere => exact standing
  | @moved target s there ends =>
    have standing : s.session.Standing home := standing
    rw [after, ends]
    exact Session.standing_of_isNormal
      (Path.isNormal_normalised (Path.isAbsolute_join standing.absolute)) standing.home
  | @refused target s e nowhere ends =>
    rw [after, ends]
    exact standing

end Turn

/-- **Turns lead from one session to another**: each begins in the session in which the one before
it has ended, and nothing happens to the session in between. -/
inductive Session.Passes : Session → List Turn → Session → Prop
  | done (session : Session) : Session.Passes session [] session
  | turn (turn : Turn) {later : List Turn} {last : Session}
      (rest : Session.Passes turn.after.session later last) :
      Session.Passes turn.before.session (turn :: later) last

namespace Session.Passes

variable {session next last : Session} {turns later : List Turn}

theorem append (h : session.Passes turns next) (h' : next.Passes later last) :
    session.Passes (turns ++ later) last := by
  induction h with
  | done session => exact h'
  | turn turn rest ih => exact .turn turn (ih h')

/-- **From a session that stands firm, turns lead to sessions that stand firm**, and all of them are
lawful. -/
theorem standing {home : Path} (h : session.Passes turns last) (normal : home.IsNormal)
    (suits : ∀ turn ∈ turns, turn.Suits) (standing : session.Standing home) :
    last.Standing home ∧ ∀ turn ∈ turns, turn.before.session.Standing home ∧ turn.Lawful := by
  induction h with
  | done session => exact ⟨standing, List.forall_mem_nil _⟩
  | turn turn rest ih =>
    have lawful : turn.Lawful :=
      Turn.lawful_of_standing normal (suits turn List.mem_cons_self) standing
    obtain ⟨hlast, hlater⟩ :=
      ih (fun t ht => suits t (List.mem_cons_of_mem _ ht)) (lawful.standing normal standing)
    exact ⟨hlast, List.forall_mem_cons.2 ⟨⟨standing, lawful⟩, hlater⟩⟩

end Session.Passes

/-! ## The turns of a line -/

/-- **The turns of stages that are run one after the other**, up to the first that fails. -/
def stageTurns (env : Environment) (total : Nat) :
    (number : Nat) → Option Text → List Stage → State → List Turn
  | _, _, [], _ => []
  | number, piped, stage :: rest, s =>
    .run env total number stage piped s ::
      match runStage env total number stage piped s with
      | .ok output s' => stageTurns env total (number + 1) (some output) rest s'
      | .error _ _ => []

/-- The stages of these turns are those that were to be run. -/
theorem suits_of_mem_stageTurns {env : Environment} {total number : Nat} {piped : Option Text}
    {stages : List Stage} {s : State}
    (suits : ∀ stage ∈ stages, stage.arguments.Suits stage.command.signature) :
    ∀ turn ∈ stageTurns env total number piped stages s, turn.Suits := by
  induction stages generalizing number piped s with
  | nil => exact List.forall_mem_nil _
  | cons stage rest ih =>
    rw [stageTurns]
    refine List.forall_mem_cons.2 ⟨suits stage List.mem_cons_self, ?_⟩
    split
    · exact ih fun later hmem => suits later (List.mem_cons_of_mem _ hmem)
    · exact List.forall_mem_nil _

/-- **Stages lead to the session in which their turns end.** -/
theorem passes_stageTurns (env : Environment) (total number : Nat) (piped : Option Text)
    (stages : List Stage) (s : State) :
    s.session.Passes (stageTurns env total number piped stages s)
      (Shell.reached (runStages env total number piped stages s)).session := by
  induction stages generalizing number piped s with
  | nil => exact .done _
  | cons stage rest ih =>
    rw [stageTurns]
    refine Session.Passes.turn (.run env total number stage piped s) ?_
    rw [Turn.after, Turn.result]
    cases rest with
    | nil =>
      -- the last stage is followed by the delivery of its output
      rw [runStages_singleton, runLast]
      rcases hrun : runStage env total number stage piped s with ⟨output, s'⟩ | ⟨e, s'⟩
      · rw [Shell.bind_of_ok hrun, Shell.session_deliver]
        exact .done _
      · rw [Shell.bind_of_error hrun]
        exact .done _
    | cons next later =>
      rw [runStages_cons_cons]
      rcases hrun : runStage env total number stage piped s with ⟨output, s'⟩ | ⟨e, s'⟩
      · rw [Shell.bind_of_ok hrun]
        exact ih (number + 1) (some output) s'
      · rw [Shell.bind_of_error hrun]
        exact .done _

/-- A line that cannot be read leaves the session alone. -/
theorem session_runLine_error {env : Environment} {line : Text} {e : Failure}
    (h : env.config.parse line = .error e) (s : State) :
    (Shell.reached (runLine env line s)).session = s.session := by
  rw [runLine_of_parse_eq_error h]
  rfl

/-- A line that is read leads to the session to which its stages lead. -/
theorem session_runLine_ok {env : Environment} {line : Text} {stages : List Stage}
    (h : env.config.parse line = .ok stages) (s : State) :
    (Shell.reached (runLine env line s)).session =
      (Shell.reached (execute env stages (s.logged .info (lineRecord line)))).session := by
  rw [runLine_of_parse_eq_ok h]
  rcases execute env stages (s.logged .info (lineRecord line)) with ⟨_, s'⟩ | ⟨e, s'⟩
  · rfl
  · cases e <;> rfl

/-! ## Requests -/

/-- **What a session is asked for.** -/
inductive Session.Request
  /-- A line to run. -/
  | line (env : Environment) (text : Text)
  /-- A directory to change to. -/
  | changeDirectory (target : Path)
  /-- Nothing: others have changed the files, or there is more to read at the console. -/
  | outside (volume : Volume) (console : Console)

namespace Session.Request

/-- **The state after a request**, well or not. -/
def after : Session.Request → State → State
  | .line env text, s => Shell.reached (runLine env text s)
  | .changeDirectory target, s => (Turn.change target s).after
  | .outside volume console, s => { s with volume, console }

/-- **The turns of a request.** -/
def turns : Session.Request → State → List Turn
  | .line env text, s =>
    match env.config.parse text with
    | .error _ => []
    | .ok stages => stageTurns env stages.length 1 none stages (s.logged .info (lineRecord text))
  | .changeDirectory target, s => [.change target s]
  | .outside _ _, _ => []

/-- A request leads to the session in which its turns end. -/
theorem passes (request : Session.Request) (s : State) :
    s.session.Passes (request.turns s) (request.after s).session := by
  cases request with
  | line env text =>
    rw [turns, after]
    rcases hparse : env.config.parse text with e | stages
    · rw [session_runLine_error hparse]
      exact .done _
    · rw [session_runLine_ok hparse]
      exact passes_stageTurns env _ 1 none stages (s.logged .info (lineRecord text))
  | changeDirectory target => exact .turn (.change target s) (.done _)
  | outside volume console => exact .done _

/-- The arguments of its stages were read. -/
theorem suits (request : Session.Request) (s : State) : ∀ turn ∈ request.turns s, turn.Suits := by
  cases request with
  | line env text =>
    rw [turns]
    split
    · exact List.forall_mem_nil _
    · next stages hparse =>
      exact suits_of_mem_stageTurns fun stage hmem =>
        ((wellRead_of_parse hparse).2.1 stage hmem).arguments
  | changeDirectory target => exact List.forall_mem_singleton.2 trivial
  | outside volume console => exact List.forall_mem_nil _

end Session.Request

/-- The state after requests, one after the other. -/
def afterAll (requests : List Session.Request) (s : State) : State :=
  requests.foldl (fun s request => request.after s) s

/-- **All turns of requests**, one after the other. -/
def turnsOf : List Session.Request → State → List Turn
  | [], _ => []
  | request :: rest, s => request.turns s ++ turnsOf rest (request.after s)

/-- Requests lead to the session in which their turns end. -/
theorem passes_turnsOf (requests : List Session.Request) (s : State) :
    s.session.Passes (turnsOf requests s) (afterAll requests s).session := by
  induction requests generalizing s with
  | nil => exact .done _
  | cons request rest ih => exact (request.passes s).append (ih (request.after s))

theorem suits_of_mem_turnsOf (requests : List Session.Request) (s : State) :
    ∀ turn ∈ turnsOf requests s, turn.Suits := by
  induction requests generalizing s with
  | nil => exact List.forall_mem_nil _
  | cons request rest ih =>
    exact List.forall_mem_append.2 ⟨request.suits s, ih (request.after s)⟩

/-- **A session stands firm whatever it is asked for.** It begins in an absolute directory. Then
after any requests the working directory is absolute and normal, a dot names it, and home is where
it was. The session has passed through the turns of the requests alone, each of which began where a
session stands firm and was lawful: only the command that changes the directory and a change that
was asked for have led elsewhere, to an existing directory and by its normal path. -/
theorem standing_afterAll {cwd home : Path} (absolute : cwd.isAbsolute = true)
    (own : home.isAbsolute = true) {s : State} (start : s.session = .start cwd home)
    (requests : List Session.Request) :
    (afterAll requests s).session.Standing home.normalised ∧
      s.session.Passes (turnsOf requests s) (afterAll requests s).session ∧
      ∀ turn ∈ turnsOf requests s,
        turn.before.session.Standing home.normalised ∧ turn.Lawful := by
  have hpasses : s.session.Passes (turnsOf requests s) (afterAll requests s).session :=
    passes_turnsOf requests s
  have hstart : s.session.Standing home.normalised := by
    rw [start]
    exact Session.standing_of_isNormal (Path.isNormal_normalised absolute) rfl
  obtain ⟨hlast, hturns⟩ := hpasses.standing (Path.isNormal_normalised own)
    (suits_of_mem_turnsOf requests s) hstart
  exact ⟨hlast, hpasses, hturns⟩

/-- A directory is entered, and a missing one is not. -/
theorem standing_afterAll_cd :
    let requests : List Session.Request :=
      [.line .plain "cd d".toList, .changeDirectory ⟨['e']⟩, .line .plain "cd ./f".toList]
    let s : State := .atRoot ⟨[([['d']], .directory)]⟩
    s.session = .start ⟨['/']⟩ ⟨['/']⟩ ∧ (turnsOf requests s).length = 3 ∧
      (afterAll requests s).session = ⟨⟨"/d".toList⟩, ⟨['/']⟩⟩ ∧
      (afterAll requests s).session.Standing ⟨['/']⟩ ∧
      ∀ turn ∈ turnsOf requests s, turn.Lawful := by
  intro requests s
  have start : s.session = .start ⟨['/']⟩ ⟨['/']⟩ := rfl
  obtain ⟨hlast, -, hturns⟩ := standing_afterAll rfl rfl start requests
  exact ⟨start, by decide +kernel, by decide +kernel, hlast,
    fun turn hturn => (hturns turn hturn).2⟩

end FileShell
