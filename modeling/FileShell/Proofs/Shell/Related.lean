import FileShell.Proofs.Command.Remove
import FileShell.Proofs.Shell.Redirection
import FileShell.Proofs.Volume.Alike

/-! # Runs side by side

Two runs are related if related states lead them to the same result, or to the same failure, in
related states again. Most of what a command sees of the files is what stands where; only a few
commands look into some of them (`Command.reads`). So every relation under which these files have
the same texts, and which no single step breaks (`Shell.Kept`), is kept by whole commands
(`Shell.related_run`).

* **`HeedlessTalk`** — what was shown before plays no part in what is said at the console.
* **`Volume.LooksLike`** — the same things stand in the same places.
* **`Shell.Related`** — two runs from related states.
* **`Shell.session_run`** — the working directory is changed by one command alone. -/

namespace FileShell

/-! ## Talks that do not look back -/

/-- **A talk takes no notice of what was shown before**: what it gives, what it leaves unread and
what it shows is decided by the input alone, of which it takes some lines from the front. -/
def HeedlessTalk {α : Type} (talk : Console → α × Console) : Prop :=
  ∀ unread, ∃ a rest since, rest <:+ unread ∧
    ∀ events, talk ⟨unread, events⟩ = (a, ⟨rest, events ++ since⟩)

theorem heedless_write (t : Text) : HeedlessTalk fun c => ((), c.write t) :=
  fun unread => ⟨(), unread, [.write t], List.suffix_rfl, fun _ => rfl⟩

theorem heedless_warn (t : Text) : HeedlessTalk fun c => ((), c.warn t) :=
  fun unread => ⟨(), unread, [.warn t], List.suffix_rfl, fun _ => rfl⟩

theorem heedless_ask (prompt : Text) : HeedlessTalk (·.ask prompt) := by
  intro unread
  rcases unread with _ | ⟨⟨t⟩ | ⟨reason⟩, rest⟩
  · exact ⟨.ok none, [], [.prompt prompt], List.suffix_rfl, fun _ => rfl⟩
  · exact ⟨.ok (some t), rest, [.prompt prompt], List.suffix_cons _ rest, fun _ => rfl⟩
  · exact ⟨.error reason, rest, [.prompt prompt], List.suffix_cons _ rest, fun _ => rfl⟩

/-- Typed text is read off the input alone. -/
theorem heedless_typedText (stopWord : Text) :
    HeedlessTalk fun c => typedText stopWord c.events c.unread := by
  intro unread
  induction unread with
  | nil => exact ⟨.ok [], [], [.prompt []], List.suffix_rfl, fun _ => rfl⟩
  | cons input rest ih =>
    cases input with
    | failure reason =>
      exact ⟨.error reason, rest, [.prompt []], List.suffix_cons _ rest, fun _ => rfl⟩
    | line t =>
      by_cases hstop : t = stopWord
      · refine ⟨.ok [], rest, [.prompt []], List.suffix_cons _ rest, fun events => ?_⟩
        simp [typedText, hstop]
      · -- one more line is asked for behind the same prompt
        obtain ⟨text, unread, since, hfront, hrest⟩ := ih
        refine ⟨(t ++ '\n' :: ·) <$> text, unread, .prompt [] :: since,
          hfront.trans (List.suffix_cons _ rest), fun events => ?_⟩
        have hmore := hrest (events ++ [.prompt []])
        simp only at hmore
        simp [typedText, hstop, hmore]

/-- What the pager shows depends on the keys alone. -/
theorem heedless_rounds (pager : Pager) : HeedlessTalk fun c => pager.rounds c.events c.unread := by
  intro unread
  induction unread generalizing pager with
  | nil =>
    by_cases hdone : pager.isDone = true
    · exact ⟨.ok (), [], [], List.suffix_rfl, fun events => by simp [Pager.rounds, hdone]⟩
    · exact ⟨.ok (), [], [.prompt pager.prompt], List.suffix_rfl,
        fun events => by simp [Pager.rounds, hdone]⟩
  | cons input rest ih =>
    have hfront : rest <:+ input :: rest := List.suffix_cons input rest
    by_cases hdone : pager.isDone = true
    · exact ⟨.ok (), input :: rest, [], List.suffix_rfl,
        fun events => by simp [Pager.rounds, hdone]⟩
    · cases input with
      | failure reason =>
        exact ⟨.error (.execution (.cannotRead "more".toList reason)), rest,
          [.prompt pager.prompt], hfront, fun events => by simp [Pager.rounds, hdone]⟩
      | line t =>
        rcases hkey : Key.ofInput? t with _ | key
        · exact ⟨.error (.argument (.unsupportedKey t)), rest, [.prompt pager.prompt], hfront,
            fun events => by simp [Pager.rounds, hdone, hkey]⟩
        · rcases happly : pager.apply key with ⟨_ | shown, next⟩
          · exact ⟨.ok (), rest, [.prompt pager.prompt], hfront,
              fun events => by simp [Pager.rounds, hdone, hkey, happly]⟩
          · -- the next round begins behind what this one has shown
            obtain ⟨result, unread, since, hlater, hnext⟩ := ih next
            refine ⟨result, unread, .prompt pager.prompt :: shown.map .write ++ since,
              hlater.trans hfront, fun events => ?_⟩
            have hmore := hnext (events ++ [.prompt pager.prompt] ++ shown.map .write)
            simp only at hmore
            simpa [Pager.rounds, hdone, hkey, happly] using hmore

/-- So does a whole conversation with it. -/
theorem heedless_show (pager : Pager) : HeedlessTalk pager.show := by
  intro unread
  obtain ⟨result, rest, since, hfront, hrounds⟩ := heedless_rounds pager.firstPage.2 unread
  refine ⟨result, rest, pager.firstPage.1.map .write ++ since, hfront, fun events => ?_⟩
  have hmore := hrounds (events ++ pager.firstPage.1.map .write)
  simp only at hmore
  simpa [Pager.show] using hmore

/-! ## What is seen without opening a file -/

/-- **Two volumes look the same** to whoever opens no file: every path leads to the same kind of
thing, and every directory lists the same names. -/
structure Volume.LooksLike (v v' : Volume) : Prop where
  stat : ∀ p, v'.stat p = v.stat p
  names : ∀ p, v'.names p = v.names p

namespace Volume.LooksLike

variable {v v' : Volume}

theorem refl (v : Volume) : v.LooksLike v := ⟨fun _ => rfl, fun _ => rfl⟩

/-! ### Listings -/

theorem entryLines_eq (h : v.LooksLike v') (directory : Path) (indent : Text) :
    entryLines v' directory indent = entryLines v directory indent := by
  have hline : entryLine v' directory indent = entryLine v directory indent :=
    funext fun name => by simp only [entryLine, h.stat]
  simp only [entryLines, h.names, hline]

theorem matchLines_eq (h : v.LooksLike v') (paths : List Path) :
    matchLines v' paths = matchLines v paths := by
  induction paths with
  | nil => rfl
  | cons path rest ih => simp only [matchLines, h.stat, h.entryLines_eq, ih]

/-- **A listing has the same lines.** -/
theorem listLines_eq (h : v.LooksLike v') (cwd : Path) (call : Call) :
    listLines v' cwd call = listLines v cwd call := by
  simp only [listLines, pathLines, h.stat, h.entryLines_eq, h.matchLines_eq]

/-! ### Calls -/

theorem expand_eq (h : v.LooksLike v') (s : Session) (scope : MatchScope) (word : Text) :
    s.expand v' scope word = s.expand v scope word := by
  have hscope : Session.inScope v' scope = Session.inScope v scope :=
    funext fun p => by simp only [Session.inScope, h.stat]
  simp only [Session.expand, h.names, hscope]

theorem bindOperands_eq (h : v.LooksLike v') (s : Session) (scope : MatchScope) (command : Text)
    (signature : Signature) (count index : Nat) (operands : List Operand) :
    s.bindOperands v' scope command signature count index operands =
      s.bindOperands v scope command signature count index operands := by
  induction operands generalizing index with
  | nil => rfl
  | cons operand rest ih =>
    have hoperand (requirement : Requirement) :
        s.bindOperand v' scope command requirement operand =
          s.bindOperand v scope command requirement operand := by
      rcases operand with word | ⟨word, _ | _⟩
      · rfl
      · simp only [Session.bindOperand, h.stat]
      · simp only [Session.bindOperand, h.expand_eq]
    simp only [Session.bindOperands, hoperand, ih]

theorem checkLayout_eq (h : v.LooksLike v') (command : Text) (signature : Signature)
    (operands : List Operand) (bound : List Bound) :
    Session.checkLayout v' command signature operands bound =
      Session.checkLayout v command signature operands bound := by
  -- the conditions are about paths that a list or an option holds
  have hstat : v'.stat = v.stat := funext h.stat
  unfold Session.checkLayout Session.checkDestination Session.needsDirectory
  rw [hstat]

/-- **A stage is bound to the same call.** -/
theorem bind_eq (h : v.LooksLike v') (s : Session) (scope : MatchScope) (command : Text)
    (signature : Signature) (arguments : Arguments) (piped : Option Text) :
    s.bind v' scope command signature arguments piped =
      s.bind v scope command signature arguments piped := by
  simp only [Session.bind, h.bindOperands_eq, h.checkLayout_eq]

/-! ### Texts -/

/-- Files have the same texts together if each of them has the same one. -/
theorem fileTexts_eq (h : v.LooksLike v') {paths : List Path}
    (texts : ∀ p ∈ paths, v'.readText p = v.readText p) : fileTexts v' paths = fileTexts v paths := by
  induction paths with
  | nil => rfl
  | cons p rest ih =>
    obtain ⟨htext, hrest⟩ := List.forall_mem_cons.1 texts
    simp only [fileTexts, fileText, h.stat, htext, ih hrest]

theorem linesToBrowse_eq (h : v.LooksLike v') {call : Call}
    (lines : ∀ p ∈ call.paths, v'.readLines p = v.readLines p) :
    linesToBrowse call v' = linesToBrowse call v := by
  unfold linesToBrowse
  split
  · rfl
  · next p hp => rw [h.stat, lines p (List.mem_of_mem_head? hp)]

end Volume.LooksLike

/-! ## What commands do to files -/

/-- **The files that a command looks into.** All others matter to it only as to what they are and
where they stand. -/
def Command.reads : Command → Call → List Path
  | .cat, call | .more, call => call.paths
  | .cp, call | .mv, call => call.paths.dropLast
  | .args, _ | .cd, _ | .date, _ | .exit, _ | .help, _ | .ls, _ | .mkdir, _ | .pwd, _ | .rm, _
  | .rmdir, _ => []

/-- **The changes that a command makes** which looks into the given files: none but these are
copied, and a command that looks into files makes no changes but by copying and by removing single
files. -/
inductive ChangeMade : List Path → (Volume → Except FileError Unit × Volume) → Prop
  | copyFile {reads : List Path} {source : Path} (read : source ∈ reads) (target : Path) :
    ChangeMade reads (·.copyFile source target)
  | removeFile (reads : List Path) (p : Path) : ChangeMade reads (·.removeFile p)
  | removeDirectory (p : Path) : ChangeMade [] (·.removeDirectory p)
  | removeAll (p : Path) : ChangeMade [] (·.removeAll p)
  | createDirectory (p : Path) : ChangeMade [] (·.createDirectory p)
  | write (p : Path) (text : Text) (mode : WriteMode) : ChangeMade [] (·.write p text mode)

namespace Shell

/-! ## Related runs -/

variable {α β : Type} {R : State → State → Prop}

/-- **Two runs have ended in the same way**, with one result or one failure, and in related
states. -/
inductive SameEnd (R : State → State → Prop) {α : Type} :
    EStateM.Result Failure State α → EStateM.Result Failure State α → Prop
  | ok (a : α) {s s' : State} (related : R s s') : SameEnd R (.ok a s) (.ok a s')
  | error (e : Failure) {s s' : State} (related : R s s') : SameEnd R (.error e s) (.error e s')

/-- The states that they have reached are related. -/
theorem SameEnd.reached {r r' : EStateM.Result Failure State α} (h : SameEnd R r r') :
    R (reached r) (reached r') := by
  cases h <;> assumption

/-- What is related in one way may be related in another. -/
theorem SameEnd.mono {R' : State → State → Prop} {r r' : EStateM.Result Failure State α}
    (h : SameEnd R r r') (weaker : ∀ {s s'}, R s s' → R' s s') : SameEnd R' r r' := by
  cases h with
  | ok a related => exact .ok a (weaker related)
  | error e related => exact .error e (weaker related)

/-- **Runs that have begun in the same way** end in the same way if they go on so. -/
theorem SameEnd.bind {x y : Shell α} {f g : α → Shell β} {s s' : State}
    (h : SameEnd R (x s) (y s'))
    (next : ∀ a t t', x s = .ok a t → R t t' → SameEnd R (f a t) (g a t')) :
    SameEnd R ((x >>= f) s) ((y >>= g) s') := by
  generalize hrun : x s = r, hrun' : y s' = r' at h
  cases h with
  | ok a related =>
    rw [bind_of_ok hrun, bind_of_ok hrun']
    exact next a _ _ hrun related
  | error e related =>
    rw [bind_of_error hrun, bind_of_error hrun']
    exact .error e related

/-- **Two runs are related** if they end in the same way whenever they begin in related states. -/
def Related (R : State → State → Prop) (x y : Shell α) : Prop :=
  ∀ s s', R s s' → SameEnd R (x s) (y s')

theorem related_pure (a : α) : Related R (pure a) (pure a) := fun _ _ h => .ok a h

theorem related_throw (e : Failure) : Related R (throw e : Shell α) (throw e) :=
  fun _ _ h => .error e h

theorem related_ofExcept (r : Except Failure α) : Related R (ofExcept r) (ofExcept r) := by
  cases r with
  | ok a => exact fun _ _ h => .ok a h
  | error e => exact fun _ _ h => .error e h

theorem related_cannot (command : Command) (action : Action) (path : Path) (obstacle : Obstacle) :
    Related R (cannot command action path obstacle : Shell α)
      (cannot command action path obstacle) :=
  related_throw _

/-- **Runs made of two are related** if their parts are. -/
theorem Related.bind {x y : Shell α} {f g : α → Shell β} (hx : Related R x y)
    (hf : ∀ a, Related R (f a) (g a)) : Related R (x >>= f) (y >>= g) :=
  fun s s' h => (hx s s' h).bind fun a t t' _ => hf a t t'

/-- **A relation that is kept step by step** by whoever looks into the given files. Related states
agree on all that is seen then, and after one step they are related again. -/
structure Kept (reads : List Path) (R : State → State → Prop) : Prop where
  session : ∀ {s s'}, R s s' → s'.session = s.session
  looks : ∀ {s s'}, R s s' → s.volume.LooksLike s'.volume
  /-- The files have the same texts, and the same lines. -/
  texts : ∀ {s s'}, R s s' → ∀ p ∈ reads,
    s'.volume.readText p = s.volume.readText p ∧ s'.volume.readLines p = s.volume.readLines p
  /-- The files are changed in the same way. -/
  changed : ∀ {s s'}, R s s' → ∀ {change}, ChangeMade reads change →
    (change s'.volume).1 = (change s.volume).1 ∧
      R { s with volume := (change s.volume).2 } { s' with volume := (change s'.volume).2 }
  /-- The same is said at the console, and read from it. -/
  talked : ∀ {s s'}, R s s' → ∀ {α : Type} {talk : Console → α × Console}, HeedlessTalk talk →
    (talk s'.console).1 = (talk s.console).1 ∧
      R { s with console := (talk s.console).2 } { s' with console := (talk s'.console).2 }
  /-- The same record is made. -/
  recorded : ∀ {s s'}, R s s' → ∀ level t, R (s.logged level t) (s'.logged level t)

section

variable {reads : List Path} (kept : Kept reads R)
include kept

theorem related_stat (p : Path) : Related R (stat p) (stat p) := by
  intro s s' h
  rw [stat_apply, stat_apply, (kept.looks h).stat]
  exact .ok _ h

theorem related_attempt {change : Volume → Except FileError Unit × Volume}
    (made : ChangeMade reads change) : Related R (attempt change) (attempt change) := by
  intro s s' h
  obtain ⟨houtcome, hrelated⟩ := kept.changed h made
  rw [attempt_apply, attempt_apply, houtcome]
  exact .ok _ hrelated

/-- What is done next is known for a change that failed and for one that was carried out. -/
theorem related_attempt_bind {change : Volume → Except FileError Unit × Volume}
    {f : Except FileError Unit → Shell β} (made : ChangeMade reads change)
    (failed : ∀ e, Related R (f (.error e)) (f (.error e)))
    (changed : Related R (f (.ok ())) (f (.ok ()))) :
    Related R (attempt change >>= f) (attempt change >>= f) := by
  refine (related_attempt kept made).bind fun outcome => ?_
  cases outcome with
  | error e => exact failed e
  | ok _ => exact changed

theorem related_record (level : Level) (t : Text) : Related R (record level t) (record level t) :=
  fun _ _ h => .ok () (kept.recorded h level t)

theorem related_converse {talk : Console → α × Console} (heedless : HeedlessTalk talk) :
    Related R (converse talk) (converse talk) := by
  intro s s' h
  obtain ⟨hanswer, hrelated⟩ := kept.talked h heedless
  rw [converse, converse, hanswer]
  exact .ok _ hrelated

end

/-- A question that has the same answer in related states. -/
theorem related_look {question : Volume → α}
    (same : ∀ {s s'}, R s s' → question s'.volume = question s.volume) :
    Related R (look question) (look question) := by
  intro s s' h
  rw [look, look, same h]
  exact .ok _ h

/-! ## Commands that look into files -/

theorem related_cat (stopWord : Text) {call : Call} (kept : Kept call.paths R) :
    Related R (cat stopWord call) (cat stopWord call) := by
  unfold cat
  split
  · split
    · exact related_pure _
    · refine (related_converse kept (heedless_write _)).bind fun _ =>
        (related_converse kept (heedless_typedText stopWord)).bind fun typed => ?_
      cases typed with
      | ok text => exact related_pure text
      | error reason => exact related_throw _
  · have hlook : Related R (look (fileTexts · call.paths)) (look (fileTexts · call.paths)) :=
      related_look fun h => (kept.looks h).fileTexts_eq fun p hp => (kept.texts h p hp).1
    exact hlook.bind fun _ => related_ofExcept _

theorem related_more (pageSize : Nat) {call : Call} (kept : Kept call.paths R) :
    Related R (more pageSize call) (more pageSize call) := by
  have hlook : Related R (look (linesToBrowse call)) (look (linesToBrowse call)) :=
    related_look fun h => (kept.looks h).linesToBrowse_eq fun p hp => (kept.texts h p hp).2
  exact hlook.bind fun _ => (related_ofExcept _).bind fun _ =>
    (related_converse kept (heedless_show _)).bind fun _ => (related_ofExcept _).bind fun _ =>
      related_pure _

section

variable {reads : List Path} (kept : Kept reads R)
include kept

theorem related_copyOne (command : Command) {source : Path} (read : source ∈ reads)
    (target : Path) :
    Related R (copyOne command source target) (copyOne command source target) := by
  unfold copyOne
  split
  · exact (related_throw _).bind fun _ =>
      related_attempt_bind kept (.copyFile read target)
        (fun _ => related_cannot _ _ _ _) (related_record kept _ _)
  · exact related_attempt_bind kept (.copyFile read target)
      (fun _ => related_cannot _ _ _ _) (related_record kept _ _)

theorem related_copyEach (command : Command) (target : Path → Path) {sources : List Path}
    (read : ∀ source ∈ sources, source ∈ reads) :
    Related R (copyEach command target sources) (copyEach command target sources) := by
  induction sources with
  | nil => exact related_pure _
  | cons source rest ih =>
    obtain ⟨hsource, hrest⟩ := List.forall_mem_cons.1 read
    refine (related_stat kept source).bind fun presence => ?_
    cases presence with
    | missing => exact related_cannot _ _ _ _
    | directory =>
      exact Related.bind ((related_record kept _ _).bind fun _ =>
        related_converse kept (heedless_warn _)) fun _ => ih hrest
    | file =>
      exact (related_copyOne kept _ hsource _).bind fun _ =>
        (ih hrest).bind fun _ => related_pure _

theorem related_removeEach (command : Command) (sources : List Path) :
    Related R (removeEach command sources) (removeEach command sources) := by
  induction sources with
  | nil => exact related_pure _
  | cons source rest ih =>
    exact related_attempt_bind kept (.removeFile reads source)
      (fun _ => (related_record kept _ _).bind fun _ => ih)
      ((related_pure ()).bind fun _ => ih)

end

theorem related_transfer (command : Command) {call : Call} (kept : Kept call.paths.dropLast R) :
    Related R (transfer command call) (transfer command call) := by
  unfold transfer
  split
  · exact related_throw _
  · refine (related_stat kept _).bind fun _ =>
      (related_copyEach kept _ _ fun _ hmem => hmem).bind fun copied => ?_
    split
    · exact (related_removeEach kept _ copied).bind fun _ => related_pure _
    · exact (related_pure _).bind fun _ => related_pure _

/-! ## Commands that do not -/

section

variable (kept : Kept [] R)
include kept

theorem related_list (call : Call) : Related R (list call) (list call) := by
  intro s s' h
  rw [list, list, (kept.looks h).listLines_eq, kept.session h]
  split
  · exact .ok _ h
  · exact .error _ h

theorem related_printDirectory : Related R printDirectory printDirectory := by
  intro s s' h
  rw [printDirectory, printDirectory, kept.session h]
  exact .ok _ h

theorem related_makeDirectories (call : Call) :
    Related R (makeDirectories call) (makeDirectories call) := by
  refine Related.bind ?_ fun _ => related_pure _
  induction call.paths with
  | nil => exact related_pure _
  | cons path rest ih =>
    have hmade : Related R
        (record .info (madeText path) >>= fun _ =>
          makeEach rest)
        (record .info (madeText path) >>= fun _ =>
          makeEach rest) :=
      (related_record kept _ _).bind fun _ => ih
    refine (related_stat kept path).bind fun presence => ?_
    cases presence with
    | missing =>
      exact related_attempt_bind kept (.createDirectory path)
        (fun _ => related_cannot _ _ _ _) hmade
    | file | directory =>
      -- the run ends here, so what comes next need only be related
      exact (related_cannot _ _ _ _).bind fun _ =>
        related_attempt_bind kept (.createDirectory path)
          (fun _ => related_cannot _ _ _ _) hmade

theorem related_removeWith (command : Command) (path : Path)
    {change : Volume → Except FileError Unit × Volume} (made : ChangeMade [] change) :
    Related R (removeWith command path change) (removeWith command path change) :=
  related_attempt_bind kept made (fun _ => related_cannot _ _ _ _) (related_pure _)

theorem related_confirm (prompt : Text) : Related R (confirm prompt) (confirm prompt) := by
  refine (related_converse kept (heedless_ask prompt)).bind fun answer => ?_
  rcases answer with reason | _ | t
  · exact (related_record kept _ _).bind fun _ => related_pure _
  · exact related_pure _
  · exact related_pure _

theorem related_removeFull (command : Command) (recursive : Bool) (path : Path) :
    Related R (removeFull command recursive path) (removeFull command recursive path) := by
  cases recursive with
  | true =>
    rw [removeFull_recursive]
    exact related_removeWith kept _ _ (.removeAll path)
  | false =>
    refine (related_confirm kept _).bind fun answer => ?_
    cases answer with
    | proceed => exact related_removeWith kept _ _ (.removeAll path)
    | declined =>
      exact (related_record kept _ _).bind fun _ => related_converse kept (heedless_write _)
    | aborted =>
      exact (related_record kept _ _).bind fun _ => related_converse kept (heedless_warn _)

theorem related_removeDirectory (command : Command) (recursive : Bool) (path : Path) :
    Related R (removeDirectory command recursive path)
      (removeDirectory command recursive path) := by
  refine (related_look fun h => (kept.looks h).names path).bind fun names => ?_
  cases names with
  | error e => exact related_cannot _ _ _ _
  | ok names =>
    by_cases hempty : names.isEmpty = true
    · simpa [hempty] using related_removeWith kept _ _ (.removeDirectory path)
    · simpa [hempty] using related_removeFull kept _ _ _

theorem related_removeOne (command : Command) (recursive : Bool) (path : Path) :
    Related R (removeOne command recursive path) (removeOne command recursive path) := by
  refine (related_stat kept path).bind fun presence => ?_
  cases presence with
  | missing => exact related_cannot _ _ _ _
  | directory => exact related_removeDirectory kept _ _ _
  | file =>
    by_cases hcommand : command = .rmdir
    · simpa [hcommand] using related_cannot _ _ _ _
    · simpa [hcommand] using related_removeWith kept _ _ (.removeFile [] path)

theorem related_remove (command : Command) (call : Call) :
    Related R (remove command call) (remove command call) := by
  refine Related.bind ?_ fun _ => related_pure _
  induction call.paths with
  | nil => exact related_pure _
  | cons path rest ih =>
    exact (related_removeOne kept _ _ path).bind fun _ =>
      (related_record kept _ _).bind fun _ => ih

/-- An output is delivered in the same way. -/
theorem related_deliver (output : Text) (sink? : Option Sink) :
    Related R (deliver output sink?) (deliver output sink?) := by
  unfold deliver
  cases sink? with
  | none =>
    change Related R (if output.isEmpty then pure () else Shell.write _)
      (if output.isEmpty then pure () else Shell.write _)
    split
    · exact related_pure _
    · exact related_converse kept (heedless_write _)
  | some sink =>
    exact related_attempt_bind kept (.write _ _ _) (fun _ => related_throw _)
      (related_pure _)

end

/-! ## Whole commands -/

/-- **A command keeps whatever its steps keep.** The working directory is a matter of its own. -/
theorem related_run (env : Environment) {command : Command} (h : command ≠ .cd) {call : Call}
    (kept : Kept (command.reads call) R) :
    Related R (command.run env call) (command.run env call) := by
  cases command with
  | args | help => exact related_ofExcept _
  | cat => exact related_cat _ kept
  | cd => exact absurd rfl h
  | cp | mv => exact related_transfer _ kept
  | date => exact related_pure _
  | exit => exact related_throw _
  | ls => exact related_list kept call
  | mkdir => exact related_makeDirectories kept call
  | more => exact related_more _ kept
  | pwd => exact related_printDirectory kept
  | rm | rmdir => exact related_remove kept _ call

/-- A stage is bound by what is seen without opening a file. -/
theorem related_bindStage {reads : List Path} (kept : Kept reads R) (env : Environment)
    (stage : Stage) (piped : Option Text) :
    Related R (bindStage env stage piped) (bindStage env stage piped) := by
  intro s s' h
  rw [bindStage, bindStage, (kept.looks h).bind_eq, kept.session h]
  exact related_ofExcept _ s s' h

/-! ## The session -/

/-- A state beside itself, in a given session. -/
theorem kept_session (reads : List Path) (session : Session) :
    Kept reads fun s s' => s = s' ∧ s.session = session where
  session := fun ⟨h, _⟩ => h ▸ rfl
  looks := fun ⟨h, _⟩ => h ▸ .refl _
  texts := fun ⟨h, _⟩ _ _ => h ▸ ⟨rfl, rfl⟩
  changed := fun ⟨h, hsession⟩ _ _ => h ▸ ⟨rfl, rfl, hsession⟩
  talked := fun ⟨h, hsession⟩ _ _ _ => h ▸ ⟨rfl, rfl, hsession⟩
  recorded := fun ⟨h, hsession⟩ _ _ => h ▸ ⟨rfl, hsession⟩

/-- **No command but one leads to another session**, well or not. -/
theorem session_run (env : Environment) {command : Command} (h : command ≠ .cd) (call : Call)
    (s : State) : (reached (command.run env call s)).session = s.session :=
  (related_run env h (kept_session _ s.session) s s ⟨rfl, rfl⟩).reached.2

/-- Nor does any stage of another command. -/
theorem session_runStage {env : Environment} {total number : Nat} {stage : Stage}
    {piped : Option Text} (h : stage.command ≠ .cd) (s : State) :
    (reached (runStage env total number stage piped s)).session = s.session := by
  rw [runStage]
  rcases bindStage_cases env stage piped s with ⟨call, hbind⟩ | ⟨e, hbind⟩
  · rw [bind_of_ok hbind, bind_of_ok (record_apply _ _ s)]
    exact session_run env h call _
  · rw [bind_of_error hbind]
    rfl

/-- Nor does the delivery of an output. -/
theorem session_deliver (output : Text) (sink? : Option Sink) (s : State) :
    (reached (deliver output sink? s)).session = s.session :=
  (related_deliver (kept_session [] s.session) output sink? s s ⟨rfl, rfl⟩).reached.2

end Shell

end FileShell
