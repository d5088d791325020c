import FileShell.Proofs.Shell.Failures
import FileShell.Proofs.Shell.Related

/-! # What commands may touch

A command that only looks around leaves everything as it is, and the others touch no more than their
work asks for. The table of these rights (`Command.rights`) depends on the call and on the state for
the commands that read what the user types, since they read only when there is need.

* **`Rights.Respected`** — what a run had no right to touch is as it was.
* **`Shell.Within`** — a run respects given rights wherever it begins; there is one lemma for every
  kind of step, and one for every command.
* **`run_respects`** — every command respects its own rights, however it ends, and never fails as a
  line does that cannot be read. -/

namespace FileShell

/-! ## Rights -/

/-- **What a run has the right to touch.** -/
structure Rights where
  /-- The files, and the records, which may be kept in one of them. -/
  files : Bool := false
  /-- The session. -/
  session : Bool := false
  /-- What the console shows. -/
  shows : Bool := false
  /-- The input that is still to be read. -/
  reads : Bool := false
deriving DecidableEq, Repr

/-- All rights. -/
def Rights.all : Rights := ⟨true, true, true, true⟩

/-- What holds for lack of a right need not be shown if there is no such lack. -/
theorem Rights.of_held {held : Bool} {p : Prop} (h : held = true) (lacking : held = false) : p := by
  rw [h] at lacking
  cases lacking

/-- **Rights are respected** between two states: what may not be touched is as it was. Whoever reads
input takes it from the front, and whoever shows something does so behind what was shown. -/
structure Rights.Respected (r : Rights) (s s' : State) : Prop where
  files : r.files = false → s'.volume = s.volume
  records : r.files = false → s'.journal = s.journal
  session : r.session = false → s'.session = s.session
  shows : r.shows = false → s'.console.events = s.console.events
  reads : r.reads = false → s'.console.unread = s.console.unread
  front : s'.console.unread <:+ s.console.unread
  behind : s.console.events <+: s'.console.events

namespace Rights.Respected

variable {r : Rights} {s s' s'' : State}

theorem refl (r : Rights) (s : State) : r.Respected s s :=
  ⟨fun _ => rfl, fun _ => rfl, fun _ => rfl, fun _ => rfl, fun _ => rfl, List.suffix_rfl,
    List.prefix_rfl⟩

theorem trans (h : r.Respected s s') (h' : r.Respected s' s'') : r.Respected s s'' where
  files hr := (h'.files hr).trans (h.files hr)
  records hr := (h'.records hr).trans (h.records hr)
  session hr := (h'.session hr).trans (h.session hr)
  shows hr := (h'.shows hr).trans (h.shows hr)
  reads hr := (h'.reads hr).trans (h.reads hr)
  front := h'.front.trans h.front
  behind := h.behind.trans h'.behind

/-- With all rights there is still an order in which things are read and shown. -/
theorem all (h : r.Respected s s') : Rights.all.Respected s s' :=
  ⟨nofun, nofun, nofun, nofun, nofun, h.front, h.behind⟩

/-- Whoever may touch the files may leave them in any state. -/
theorem of_volume (files : r.files = true) (s : State) (v : Volume) :
    r.Respected s { s with volume := v } where
  files := of_held files
  records _ := rfl
  session _ := rfl
  shows _ := rfl
  reads _ := rfl
  front := List.suffix_rfl
  behind := List.prefix_rfl

/-- The same goes for records. -/
theorem of_logged (files : r.files = true) (s : State) (level : Level) (t : Text) :
    r.Respected s (s.logged level t) where
  files := of_held files
  records := of_held files
  session _ := rfl
  shows _ := rfl
  reads _ := rfl
  front := List.suffix_rfl
  behind := List.prefix_rfl

/-- Whoever may show something may do so without reading anything. -/
theorem of_events (shows : r.shows = true) (s : State) (since : List Event) :
    r.Respected s { s with console := { s.console with events := s.console.events ++ since } } where
  files _ := rfl
  records _ := rfl
  session _ := rfl
  shows := of_held shows
  reads _ := rfl
  front := List.suffix_rfl
  behind := List.prefix_append _ _

/-- Whoever may do both may talk to the user. -/
theorem of_talk (shows : r.shows = true) (reads : r.reads = true) {α : Type}
    {talk : Console → α × Console} (heedless : HeedlessTalk talk) (s : State) :
    r.Respected s { s with console := (talk s.console).2 } := by
  -- what a talk takes and shows depends on the input alone
  obtain ⟨a, rest, since, hfront, htalk⟩ := heedless s.console.unread
  have hs : talk s.console = (a, ⟨rest, s.console.events ++ since⟩) := htalk s.console.events
  rw [hs]
  exact {
    files := fun _ => rfl
    records := fun _ => rfl
    session := fun _ => rfl
    shows := Rights.of_held shows
    reads := Rights.of_held reads
    front := hfront
    behind := List.prefix_append _ _ }

end Rights.Respected

namespace Shell

/-! ## Runs within rights -/

variable {α β : Type} {r : Rights} {x : Shell α} {f : α → Shell β}

/-- **A run stays within rights** if they are respected wherever it begins and however it ends. -/
def Within (r : Rights) (x : Shell α) : Prop := ∀ s, r.Respected s (reached (x s))

/-- A run that leaves the state alone needs no rights. -/
theorem within_of_reached_eq (h : ∀ s, reached (x s) = s) : Within r x := by
  intro s
  rw [h s]
  exact .refl r s

theorem within_pure (a : α) : Within r (pure a : Shell α) := within_of_reached_eq fun _ => rfl

theorem within_throw (e : Failure) : Within r (throw e : Shell α) :=
  within_of_reached_eq fun _ => rfl

theorem within_ofExcept (result : Except Failure α) : Within r (ofExcept result) := by
  apply within_of_reached_eq
  intro s
  cases result <;> rfl

theorem within_look (question : Volume → α) : Within r (look question) :=
  within_of_reached_eq fun _ => rfl

theorem within_stat (p : Path) : Within r (stat p) := within_of_reached_eq fun _ => rfl

theorem within_cannot (command : Command) (action : Action) (path : Path) (obstacle : Obstacle) :
    Within r (cannot command action path obstacle : Shell α) :=
  within_throw _

/-- **A run made of two stays within rights** if its parts do. -/
theorem Within.bind (hx : Within r x) (hf : ∀ a, Within r (f a)) : Within r (x >>= f) := by
  intro s
  have hfirst := hx s
  rcases hrun : x s with ⟨a, s₁⟩ | ⟨e, s₁⟩
  · rw [hrun] at hfirst
    rw [bind_of_ok hrun]
    exact hfirst.trans (hf a s₁)
  · rw [hrun] at hfirst
    rw [bind_of_error hrun]
    exact hfirst

theorem within_attempt (files : r.files = true)
    (change : Volume → Except FileError Unit × Volume) : Within r (attempt change) :=
  fun s => .of_volume files s _

/-- What is done next is known for a change that failed and for one that was carried out. -/
theorem within_attempt_bind (files : r.files = true)
    {change : Volume → Except FileError Unit × Volume} {f : Except FileError Unit → Shell β}
    (failed : ∀ e, Within r (f (.error e))) (changed : Within r (f (.ok ()))) :
    Within r (attempt change >>= f) := by
  refine (within_attempt files change).bind fun outcome => ?_
  cases outcome with
  | error e => exact failed e
  | ok _ => exact changed

theorem within_record (files : r.files = true) (level : Level) (t : Text) :
    Within r (record level t) :=
  fun s => .of_logged files s level t

theorem within_write (shows : r.shows = true) (t : Text) : Within r (write t) :=
  fun s => .of_events shows s [.write t]

theorem within_warn (shows : r.shows = true) (t : Text) : Within r (warn t) :=
  fun s => .of_events shows s [.warn t]

theorem within_converse (shows : r.shows = true) (reads : r.reads = true)
    {talk : Console → α × Console} (heedless : HeedlessTalk talk) : Within r (converse talk) :=
  fun s => .of_talk shows reads heedless s

/-! ## Commands that look around -/

theorem within_list (call : Call) : Within r (list call) := by
  apply within_of_reached_eq
  intro s
  rw [list]
  split <;> rfl

theorem within_changeDirectory (session : r.session = true) (call : Call) :
    Within r (changeDirectory call) := by
  intro s
  rw [changeDirectory]
  split
  · exact {
      files := fun _ => rfl
      records := fun _ => rfl
      session := Rights.of_held session
      shows := fun _ => rfl
      reads := fun _ => rfl
      front := List.suffix_rfl
      behind := List.prefix_rfl }
  · exact .refl r s

/-- Lines are typed only for a call that has nothing else to read. -/
theorem within_cat (stopWord : Text) {call : Call}
    (waits : call.operands = [] → call.piped = none → r.shows = true ∧ r.reads = true) :
    Within r (cat stopWord call) := by
  unfold cat
  split
  · next hempty =>
    split
    · exact within_pure _
    · next hpiped =>
      obtain ⟨shows, reads⟩ := waits (List.isEmpty_iff.1 hempty) hpiped
      refine (within_write shows _).bind fun _ =>
        (within_converse shows reads (heedless_typedText stopWord)).bind fun typed => ?_
      cases typed with
      | ok text => exact within_pure text
      | error reason => exact within_throw _
  · exact (within_look _).bind fun _ => within_ofExcept _

theorem within_more (shows : r.shows = true) (reads : r.reads = true) (pageSize : Nat)
    (call : Call) : Within r (more pageSize call) :=
  (within_look _).bind fun _ => (within_ofExcept _).bind fun _ =>
    (within_converse shows reads (heedless_show _)).bind fun _ => (within_ofExcept _).bind fun _ =>
      within_pure _

/-! ## Commands that change files -/

section

variable (files : r.files = true)
include files

theorem within_makeDirectories (call : Call) : Within r (makeDirectories call) := by
  refine Within.bind ?_ fun _ => within_pure _
  induction call.paths with
  | nil => exact within_pure _
  | cons path rest ih =>
    have hmade : Within r
        (record .info (madeText path) >>= fun _ => makeEach rest) :=
      (within_record files _ _).bind fun _ => ih
    refine (within_stat path).bind fun presence => ?_
    cases presence with
    | missing => exact within_attempt_bind files (fun _ => within_cannot _ _ _ _) hmade
    | file | directory =>
      exact (within_cannot _ _ _ _).bind fun _ =>
        within_attempt_bind files (fun _ => within_cannot _ _ _ _) hmade

theorem within_copyOne (command : Command) (source target : Path) :
    Within r (copyOne command source target) := by
  unfold copyOne
  split
  · exact (within_throw _).bind fun _ =>
      within_attempt_bind files (fun _ => within_cannot _ _ _ _) (within_record files _ _)
  · exact within_attempt_bind files (fun _ => within_cannot _ _ _ _) (within_record files _ _)

theorem within_copyEach (shows : r.shows = true) (command : Command) (target : Path → Path)
    (sources : List Path) : Within r (copyEach command target sources) := by
  induction sources with
  | nil => exact within_pure _
  | cons source rest ih =>
    refine (within_stat source).bind fun presence => ?_
    cases presence with
    | missing => exact within_cannot _ _ _ _
    | directory =>
      exact Within.bind ((within_record files _ _).bind fun _ => within_warn shows _) fun _ => ih
    | file =>
      exact (within_copyOne files _ _ _).bind fun _ => ih.bind fun _ => within_pure _

theorem within_removeEach (command : Command) (sources : List Path) :
    Within r (removeEach command sources) := by
  induction sources with
  | nil => exact within_pure _
  | cons source rest ih =>
    exact within_attempt_bind files (fun _ => (within_record files _ _).bind fun _ => ih)
      ((within_pure ()).bind fun _ => ih)

theorem within_transfer (shows : r.shows = true) (command : Command) (call : Call) :
    Within r (transfer command call) := by
  unfold transfer
  split
  · exact within_throw _
  · refine (within_stat _).bind fun _ =>
      (within_copyEach files shows _ _ _).bind fun copied => ?_
    split
    · exact (within_removeEach files _ copied).bind fun _ => within_pure _
    · exact (within_pure _).bind fun _ => within_pure _

theorem within_removeWith (command : Command) (path : Path)
    (change : Volume → Except FileError Unit × Volume) :
    Within r (removeWith command path change) :=
  within_attempt_bind files (fun _ => within_cannot _ _ _ _) (within_pure _)

/-- A question is asked, and answered or not. -/
theorem within_removeFull (shows : r.shows = true) (reads : r.reads = true) (command : Command)
    (recursive : Bool) (path : Path) : Within r (removeFull command recursive path) := by
  have hconfirm (prompt : Text) : Within r (confirm prompt) := by
    refine (within_converse shows reads (heedless_ask prompt)).bind fun answer => ?_
    rcases answer with reason | _ | t
    · exact (within_record files _ _).bind fun _ => within_pure _
    · exact within_pure _
    · exact within_pure _
  cases recursive with
  | true =>
    rw [removeFull_recursive]
    exact within_removeWith files _ _ _
  | false =>
    refine (hconfirm _).bind fun answer => ?_
    cases answer with
    | proceed => exact within_removeWith files _ _ _
    | declined => exact (within_record files _ _).bind fun _ => within_write shows _
    | aborted => exact (within_record files _ _).bind fun _ => within_warn shows _

/-- **One operand is removed without a word** unless it is one for which the user is asked. -/
theorem respected_removeOne (command : Command) (recursive : Bool) (path : Path) (s : State)
    (asked : asks recursive path s = true → r.shows = true ∧ r.reads = true) :
    r.Respected s (reached (removeOne command recursive path s)) := by
  rcases hfull : s.volume.isFull path with _ | _
  · rcases @removeOne_of_not_isFull command recursive path s hfull with ⟨tree, -, heq⟩ | ⟨e, heq⟩
    · rw [heq]
      exact .of_volume files s _
    · rw [heq]
      exact .refl r s
  · rw [removeOne_of_isFull hfull]
    cases recursive with
    | true =>
      rw [removeFull_recursive]
      exact within_removeWith files _ _ _ s
    | false =>
      have hasks : asks false path s = true := by simp [asks, hfull]
      obtain ⟨shows, reads⟩ := asked hasks
      exact within_removeFull files shows reads command false path s

/-- **So are operands one after the other**, each in the state in which it is reached. -/
theorem respected_removeOperands (command : Command) (recursive : Bool) (paths : List Path)
    (s : State)
    (asked : ∀ visit ∈ visits command recursive paths s,
      asks recursive visit.1 visit.2 = true → r.shows = true ∧ r.reads = true) :
    r.Respected s (reached (removeOperands command recursive paths s)) := by
  induction paths generalizing s with
  | nil => exact .refl r s
  | cons path rest ih =>
    rw [visits] at asked
    have hfirst := respected_removeOne files command recursive path s
      (asked (path, s) List.mem_cons_self)
    rw [removeOperands]
    rcases hone : removeOne command recursive path s with ⟨⟨⟩, s'⟩ | ⟨e, s'⟩
    · -- the record behind an operand leads to the state in which the next one is reached
      rw [hone] at hfirst asked
      have hrest := ih (s'.logged .info (removalText command path))
        fun visit hvisit => asked visit (List.mem_cons_of_mem _ hvisit)
      rw [bind_of_ok hone, bind_of_ok (record_apply _ _ s')]
      exact (hfirst.trans (.of_logged files s' _ _)).trans hrest
    · rw [hone] at hfirst
      rw [bind_of_error hone]
      exact hfirst

end

end Shell

/-! ## The table -/

/-- **The user is asked while operands are removed**: one of them is a directory with entries when
it is reached, and the option was not given. -/
def asksOnTheWay (command : Command) (call : Call) (s : State) : Bool :=
  (visits command (call.has Command.recursiveOption) call.paths s).any fun visit =>
    asks (call.has Command.recursiveOption) visit.1 visit.2

/-- That is, the operands before it have been removed, and it is full in the state they have left. -/
theorem asksOnTheWay_iff {command : Command} {call : Call} {s : State} :
    asksOnTheWay command call s = true ↔
      call.has Command.recursiveOption = false ∧
        ∃ before d after left, call.paths = before ++ d :: after ∧
          removeOperands command false before s = .ok () left ∧ left.volume.isFull d = true := by
  rw [asksOnTheWay, List.any_eq_true]
  rcases hrecursive : call.has Command.recursiveOption with _ | _
  · constructor
    · rintro ⟨⟨d, left⟩, hvisit, hasks⟩
      obtain ⟨before, after, hpaths, hrun⟩ := mem_visits.1 hvisit
      exact ⟨rfl, before, d, after, left, hpaths, hrun, by simpa [asks] using hasks⟩
    · rintro ⟨-, before, d, after, left, hpaths, hrun, hfull⟩
      exact ⟨(d, left), mem_visits.2 ⟨before, after, hpaths, hrun⟩, by simp [asks, hfull]⟩
  · simp [asks]

/-- **What a command has the right to touch** when it is called. -/
def Command.rights (command : Command) (call : Call) (s : State) : Rights :=
  match command with
  | .args | .date | .exit | .help | .ls | .pwd => {}
  | .cat =>
    let waits := call.operands.isEmpty && call.piped.isNone
    { shows := waits, reads := waits }
  | .cd => { session := true }
  | .cp | .mv => { files := true, shows := true }
  | .mkdir => { files := true }
  | .more => { shows := true, reads := true }
  | .rm | .rmdir =>
    let asking := asksOnTheWay command call s
    { files := true, shows := asking, reads := asking }

/-- The two commands that remove respect their rights. -/
theorem respected_remove (command : Command) (call : Call) (s : State) :
    Rights.Respected
      { files := true, shows := asksOnTheWay command call s, reads := asksOnTheWay command call s }
      s (Shell.reached (remove command call s)) := by
  have hoperands := Shell.respected_removeOperands (r := ⟨true, false, _, _⟩) rfl command
    (call.has Command.recursiveOption) call.paths s fun visit hvisit hasks =>
      have hasking : asksOnTheWay command call s = true := List.any_eq_true.2 ⟨visit, hvisit, hasks⟩
      ⟨hasking, hasking⟩
  rw [remove]
  rcases hrun : removeOperands command (call.has Command.recursiveOption) call.paths s with
    ⟨⟨⟩, s'⟩ | ⟨e, s'⟩
  · rw [hrun] at hoperands
    rw [Shell.bind_of_ok hrun]
    exact hoperands
  · rw [hrun] at hoperands
    rw [Shell.bind_of_error hrun]
    exact hoperands

/-- Every command respects its rights. -/
theorem respected_run (env : Environment) (command : Command) (call : Call) (s : State) :
    (command.rights call s).Respected s (Shell.reached (command.run env call s)) := by
  cases command with
  | args | help => exact Shell.within_ofExcept _ s
  | cat =>
    refine Shell.within_cat _ (fun hoperands hpiped => ?_) s
    simp [Command.rights, hoperands, hpiped]
  | cd => exact Shell.within_changeDirectory rfl call s
  | cp | mv => exact Shell.within_transfer rfl rfl _ call s
  | date => exact Shell.within_pure _ s
  | exit => exact Shell.within_throw _ s
  | ls => exact Shell.within_list call s
  | mkdir => exact Shell.within_makeDirectories rfl call s
  | more => exact Shell.within_more rfl rfl _ call s
  | pwd => exact .refl _ s
  | rm | rmdir => exact respected_remove _ call s

/-- **No command fails as a line does that has no form**, whatever it is called with. -/
theorem run_ne_line (env : Environment) (command : Command) (call : Call) (s s' : State)
    (cause : LineError) : command.run env call s ≠ .error (.line cause) s' := by
  intro h
  by_cases leaves : command = .exit
  · rw [leaves] at h
    cases h
  by_cases paths : command = .cp ∨ command = .mv → call.paths ≠ []
  · have hphase : (Failure.line cause).phase? = some .running :=
      failsIn_run env leaves paths s (.line cause) s' h
    cases hphase
  · -- what is left is a transfer of nothing, and that fails for its missing destination
    obtain ⟨transfers, hnone⟩ : (command = .cp ∨ command = .mv) ∧ call.paths = [] := by
      simpa using paths
    have hrun : command.run env call s = .error (.argument (.missingDestination command.name)) s := by
      rcases transfers with rfl | rfl <;> simp [Command.run, transfer, hnone]
    rw [hrun] at h
    cases h

/-- **Commands touch only what they may**, whatever they are called with and however they end. What
is not in a command's rights is as it was before. Neither a command nor the binding of its words
fails as a line does that has no form. -/
theorem run_respects (env : Environment) (command : Command) (call : Call) (s : State) :
    (command.rights call s).Respected s (Shell.reached (command.run env call s)) ∧
      (∀ cause s', command.run env call s ≠ .error (.line cause) s') ∧
      ∀ (session : Session) (v : Volume) (scope : MatchScope) (name : Text)
        (signature : Signature) (arguments : Arguments) (piped : Option Text) (cause : LineError),
        session.bind v scope name signature arguments piped ≠ .error (.line cause) := by
  refine ⟨respected_run env command call s, fun cause s' => run_ne_line env command call s s' cause,
    fun session v scope name signature arguments piped cause hbind => ?_⟩
  have hphase : (Failure.line cause).phase? = some .binding := binding_of_bind hbind
  cases hphase

/-! ## Lines -/

namespace Shell

theorem within_bindStage (env : Environment) (stage : Stage) (piped : Option Text) :
    Within .all (bindStage env stage piped) := by
  apply within_of_reached_eq
  intro s
  rcases bindStage_cases env stage piped s with ⟨call, heq⟩ | ⟨e, heq⟩
  · rw [heq]
    rfl
  · rw [heq]
    rfl

theorem within_runStage (env : Environment) (total number : Nat) (stage : Stage)
    (piped : Option Text) : Within .all (runStage env total number stage piped) :=
  (within_bindStage env stage piped).bind fun call => (within_record rfl _ _).bind fun _ =>
    fun s => (respected_run env stage.command call s).all

theorem within_deliver (output : Text) (sink? : Option Sink) :
    Within .all (deliver output sink?) := by
  unfold deliver
  cases sink? with
  | none =>
    change Within .all (if output.isEmpty then pure () else Shell.write _)
    split
    · exact within_pure _
    · exact within_write rfl _
  | some sink => exact within_attempt_bind rfl (fun _ => within_throw _) (within_pure _)

theorem within_runStages (env : Environment) (total number : Nat) (piped : Option Text)
    (stages : List Stage) : Within .all (runStages env total number piped stages) := by
  intro s
  induction stages generalizing number piped s with
  | nil => exact .refl _ s
  | cons stage rest ih =>
    cases rest with
    | nil =>
      rw [runStages_singleton]
      exact (within_runStage env total number stage piped).bind
        (fun output => within_deliver output _) s
    | cons next later =>
      rw [runStages_cons_cons]
      exact (within_runStage env total number stage piped).bind
        (fun output => ih (number + 1) (some output)) s

/-- **A line takes its input from the front**, and what it shows stands behind what was shown. -/
theorem within_runLine (env : Environment) (line : Text) : Within .all (runLine env line) := by
  intro s
  rcases hparse : env.config.parse line with e | stages
  · rw [runLine_of_parse_eq_error hparse]
    exact (Rights.Respected.of_logged rfl s _ _).trans (.of_logged rfl _ _ _)
  · have hs : Rights.all.Respected s
        (reached (execute env stages (s.logged .info (lineRecord line)))) :=
      (Rights.Respected.of_logged rfl s _ _).trans (within_runStages env _ 1 none stages _)
    rw [runLine_of_parse_eq_ok hparse]
    split
    · next heq =>
      rw [heq] at hs
      exact hs
    · next heq =>
      rw [heq] at hs
      exact hs
    · next heq =>
      -- the record of the failure comes last
      rw [heq] at hs
      exact hs.trans (.of_logged rfl _ _ _)

end Shell

end FileShell
