import FileShell.Proofs.Shell.Run
import FileShell.Proofs.Volume.Removal

/-! # What removing asks for

Operands are removed one by one, and what is done with one depends on the volume and the console at
the moment when it is reached (`visits`). A directory with entries is removed only by option or by
consent, so whatever goes that was not named itself lies below such a directory
(`removed_with_consent`).

* **`Volume.isFull`**, **`Console.agrees`** — what is looked at, and what is answered.
* **`Console.Continues`** — what a console has asked meanwhile, and what it has read for that.
* **`visits`** — the operands that a run reaches, each with the state in which it reaches them. -/

namespace FileShell

/-! ## Questions and answers -/

/-- **A directory with entries**, as a command finds it. -/
def Volume.isFull (v : Volume) (p : Path) : Bool :=
  v.stat p = .directory &&
    match v.names p with
    | .ok names => !names.isEmpty
    | .error _ => false

/-- **It is one that has entries in the tree**, if nothing interferes. -/
theorem Volume.isFull_iff {v : Volume} {p : Path} (free : v.interference = .none) :
    v.isFull p = true ↔ ∃ l n, v.tree.locate p = .ok l ∧ v.tree.get? l = some .directory ∧
      v.tree.get? (l ++ [n]) ≠ none := by
  have hstat : v.stat p = v.tree.stat p := by simp [Volume.stat, free, Interference.none]
  have hnames : v.names p = v.tree.names p := by
    simp [Volume.names, Volume.unlessRefused, free, Interference.none]
  rw [isFull, hstat, hnames, Tree.stat, Tree.names]
  rcases v.tree.locate p with e | l
  · simp
  · have hentries : (v.tree.namesBelow l).isEmpty = false ↔ ∃ n, v.tree.get? (l ++ [n]) ≠ none := by
      rw [List.isEmpty_eq_false_iff_exists_mem]
      exact exists_congr fun n => Tree.mem_namesBelow
    rcases hget : v.tree.get? l with _ | _ | _ | _
    · simp [hget]
    · simpa [hget, Tree.enter] using hentries
    · simp [hget]
    · simp [hget]

/-- The text of a prompt. -/
def Event.prompt? : Event → Option Text
  | .prompt t => some t
  | .write _ | .warn _ => none

namespace Console

/-- **The next line that the user types begins with a y.** -/
def agrees (c : Console) : Bool :=
  match c.unread with
  | .line t :: _ => t.head? = some 'y' || t.head? = some 'Y'
  | _ => false

/-- **A console after some prompts**: they are what it has asked, in order, whatever else it has
shown, and one attempt to type a line was taken for each of them while there were any. -/
def Continues (c : Console) (prompts : List Text) (c' : Console) : Prop :=
  ∃ events, c'.events = c.events ++ events ∧ events.filterMap Event.prompt? = prompts ∧
    c'.unread = c.unread.drop prompts.length

variable {c c' c'' : Console} {asked later : List Text}

theorem Continues.refl (c : Console) : c.Continues [] c := ⟨[], by simp, rfl, rfl⟩

theorem Continues.trans (h : c.Continues asked c') (h' : c'.Continues later c'') :
    c.Continues (asked ++ later) c'' := by
  obtain ⟨events, hevents, hasked, hunread⟩ := h
  obtain ⟨events', hevents', hlater, hunread'⟩ := h'
  refine ⟨events ++ events', ?_, ?_, ?_⟩
  · rw [hevents', hevents, List.append_assoc]
  · rw [List.filterMap_append, hasked, hlater]
  · rw [hunread', hunread, List.drop_drop, List.length_append]

/-- What is shown besides prompts asks for nothing. -/
theorem Continues.emit (h : c.Continues asked c') {e : Event} (he : e.prompt? = none) :
    c.Continues asked (c'.emit e) := by
  obtain ⟨events, hevents, hasked, hunread⟩ := h
  refine ⟨events ++ [e], ?_, ?_, hunread⟩
  · rw [Console.emit, hevents, List.append_assoc]
  · rw [List.filterMap_append, hasked, List.filterMap_cons_none he, List.filterMap_nil,
      List.append_nil]

/-- **A question asks for one line.** -/
theorem continues_ask (c : Console) (prompt : Text) : c.Continues [prompt] (c.ask prompt).2 := by
  refine ⟨[.prompt prompt], ?_, rfl, ?_⟩ <;> unfold Console.ask <;> split <;> simp_all [Console.emit]

end Console

/-- The first character of a line decides. -/
theorem Answer.ofLine_eq_proceed {t : Text} :
    Answer.ofLine t = .proceed ↔ t.head? = some 'y' ∨ t.head? = some 'Y' := by
  unfold Answer.ofLine
  rcases t.head? with _ | c
  · simp
  · by_cases hyes : c = 'y' ∨ c = 'Y'
    · simp [hyes]
    · by_cases hno : c = 'n' ∨ c = 'N' <;> simp [hyes, hno]

variable {command : Command} {recursive : Bool} {path : Path} {s : State}

/-- **The records of one level** by which a journal has grown say what is said of them. -/
def Records (level : Level) (said : Text → Prop) (journal journal' : List Record) : Prop :=
  ∃ made, journal' = journal ++ made ∧ ∀ r ∈ made, r.level = level → said r.text

/-- Where no record is made nothing is said. -/
theorem Records.refl (level : Level) (said : Text → Prop) (journal : List Record) :
    Records level said journal journal :=
  ⟨[], (List.append_nil journal).symm, nofun⟩

/-- One more record is made. -/
theorem Records.concat {level other : Level} {said : Text → Prop} {journal journal' : List Record}
    {t : Text} (h : Records level said journal journal') (ht : other = level → said t) :
    Records level said journal (journal' ++ [⟨other, t⟩]) := by
  obtain ⟨made, rfl, hmade⟩ := h
  refine ⟨made ++ [⟨other, t⟩], by rw [List.append_assoc], ?_⟩
  intro r hr
  rcases List.mem_append.1 hr with hr | hr
  · exact hmade r hr
  · obtain rfl := List.mem_singleton.1 hr
    exact ht

/-- **A question is answered with agreement**, or with something else, and then nothing but a record
is made, as a warning. -/
theorem confirm_cases (prompt : Text) (s : State) :
    (s.console.agrees = true ∧ confirm prompt s =
        .ok .proceed { s with console := (s.console.ask prompt).2 }) ∨
      s.console.agrees = false ∧ ∃ answer s', answer ≠ .proceed ∧
        confirm prompt s = .ok answer s' ∧ s'.console = (s.console.ask prompt).2 ∧
        s.volume.Untouched s'.volume ∧ ∀ said, Records .info said s.journal s'.journal := by
  rw [confirm, Shell.bind_of_ok (Shell.ask_apply prompt s)]
  rcases hunread : s.console.unread with _ | ⟨⟨t⟩ | ⟨reason⟩, rest⟩
  · -- the end of the input
    have hask : (s.console.ask prompt).1 = .ok none := by simp [Console.ask, hunread]
    rw [hask]
    exact .inr ⟨by simp [Console.agrees, hunread], .aborted, _, nofun, rfl, rfl, .refl _,
      fun said => .refl .info said s.journal⟩
  · have hask : (s.console.ask prompt).1 = .ok (some t) := by simp [Console.ask, hunread]
    have hagrees : s.console.agrees = true ↔ Answer.ofLine t = .proceed := by
      rw [Answer.ofLine_eq_proceed]
      simp [Console.agrees, hunread]
    rw [hask]
    by_cases hproceed : Answer.ofLine t = .proceed
    · refine .inl ⟨hagrees.2 hproceed, ?_⟩
      rw [← hproceed]
      rfl
    · refine .inr ⟨?_, Answer.ofLine t, _, hproceed, rfl, rfl, .refl _,
        fun said => .refl .info said s.journal⟩
      rw [← Bool.not_eq_true, hagrees]
      exact hproceed
  · -- a line that cannot be read
    have hask : (s.console.ask prompt).1 = .error reason := by simp [Console.ask, hunread]
    rw [hask]
    exact .inr ⟨by simp [Console.agrees, hunread], .aborted, _, nofun, rfl, rfl,
      (Volume.Untouched.refl _).logged _, fun said => (Records.refl .info said _).concat nofun⟩

/-! ## One operand -/

/-- A removal that is attempted changes the volume alone, whatever comes of it. -/
theorem reached_removeWith (command : Command) (path : Path)
    (change : Volume → Except FileError Unit × Volume) (s : State) :
    Shell.reached (removeWith command path change s) =
      { s with volume := (change s.volume).2 } := by
  rw [removeWith, Shell.bind_of_ok (Shell.attempt_apply change s)]
  rcases (change s.volume).1 with e | _ <;> rfl

/-- By option a directory is removed unasked. -/
theorem removeFull_recursive (command : Command) (path : Path) :
    removeFull command true path = removeWith command path (·.removeAll path) := by
  simp [removeFull]

/-- **Otherwise the user is asked**: the directory is removed by consent, and without it nothing is
touched, and no record says more than that the user has declined. -/
theorem removeFull_asking (command : Command) (path : Path) (s : State) :
    (s.console.agrees = true ∧ removeFull command false path s =
        removeWith command path (·.removeAll path)
          { s with console := (s.console.ask (removalPrompt command path)).2 }) ∨
      s.console.agrees = false ∧ ∃ s', removeFull command false path s = .ok () s' ∧
        s.console.Continues [removalPrompt command path] s'.console ∧
        s.volume.Untouched s'.volume ∧
        Records .info (· = declinedText command path) s.journal s'.journal := by
  have hasks := s.console.continues_ask (removalPrompt command path)
  unfold removeFull
  simp only [Bool.false_eq_true, if_false]
  rcases confirm_cases (removalPrompt command path) s with
    ⟨hagrees, hconfirm⟩ | ⟨hrefuses, answer, s', hanswer, hconfirm, hconsole, huntouched, hrecords⟩
  · exact .inl ⟨hagrees, Shell.bind_of_ok hconfirm⟩
  · refine .inr ⟨hrefuses, ?_⟩
    rw [Shell.bind_of_ok hconfirm]
    rw [← hconsole] at hasks
    cases answer with
    | proceed => exact absurd rfl hanswer
    | declined =>
      exact ⟨_, rfl, hasks.emit rfl, huntouched.logged _, (hrecords _).concat fun _ => rfl⟩
    | aborted =>
      exact ⟨_, rfl, hasks.emit rfl, huntouched.logged _, (hrecords _).concat nofun⟩

/-- A directory with entries is removed as such. -/
theorem removeOne_of_isFull (full : s.volume.isFull path = true) :
    removeOne command recursive path s = removeFull command recursive path s := by
  obtain ⟨hstat, hnames⟩ := Bool.and_eq_true_iff.1 full
  rw [decide_eq_true_eq] at hstat
  rw [removeOne, Shell.bind_of_ok (Shell.stat_apply path s), hstat]
  rcases hlist : s.volume.names path with e | names
  · rw [hlist] at hnames
    cases hnames
  · have hlook : Shell.look (·.names path) s = .ok (.ok names) s := by rw [Shell.look, hlist]
    have hne : names.isEmpty = false := by simpa [hlist] using hnames
    change removeDirectory command recursive path s = _
    rw [removeDirectory, Shell.bind_of_ok hlook]
    simp [hne]

/-- A removal that is attempted is carried out or fails, and then nothing has changed. -/
theorem removeWith_cases (command : Command) (path : Path) {o : Operation}
    (change : Volume → Except FileError Unit × Volume) {outcome : Except FileError Tree}
    (h : change s.volume = s.volume.afterChange (s.volume.unlessRefused o path outcome)) :
    (∃ tree, outcome = .ok tree ∧ removeWith command path change s =
        .ok () { s with volume := s.volume.withTree tree }) ∨
      ∃ e, removeWith command path change s = .error e s := by
  rcases s.volume.changed_cases o path outcome with ⟨tree, -, houtcome, heq⟩ | ⟨-, e, heq⟩
  · have hattempt : Shell.attempt change s = _ := Shell.attempt_of_eq (h.trans heq)
    exact .inl ⟨tree, houtcome, Shell.bind_of_ok hattempt⟩
  · have hattempt : Shell.attempt change s = _ := Shell.attempt_of_eq (h.trans heq)
    exact .inr ⟨_, Shell.bind_of_ok hattempt⟩

/-- **Anything else is removed by itself**, or it stays and the run fails. -/
theorem removeOne_of_not_isFull (empty : s.volume.isFull path = false) :
    (∃ tree, (s.volume.tree.removeFile path = .ok tree ∨
          s.volume.tree.removeDirectory path = .ok tree) ∧
        removeOne command recursive path s =
          .ok () { s with volume := s.volume.withTree tree }) ∨
      ∃ e, removeOne command recursive path s = .error e s := by
  rw [removeOne, Shell.bind_of_ok (Shell.stat_apply path s)]
  rcases hstat : s.volume.stat path with _ | _ | _
  · -- a file
    by_cases hcommand : command = .rmdir
    · rw [if_pos hcommand]
      exact .inr ⟨_, rfl⟩
    · rw [if_neg hcommand]
      rcases removeWith_cases command path (·.removeFile path) rfl with
        ⟨tree, hremove, heq⟩ | ⟨e, heq⟩
      · exact .inl ⟨tree, .inl hremove, heq⟩
      · exact .inr ⟨e, heq⟩
  · -- a directory
    change (∃ tree, _ ∧ removeDirectory command recursive path s = _) ∨
      ∃ e, removeDirectory command recursive path s = _
    rcases hlist : s.volume.names path with e | names
    · have hlook : Shell.look (·.names path) s = .ok (.error e) s := by rw [Shell.look, hlist]
      rw [removeDirectory, Shell.bind_of_ok hlook]
      exact .inr ⟨_, rfl⟩
    · have hlook : Shell.look (·.names path) s = .ok (.ok names) s := by rw [Shell.look, hlist]
      have hempty : names.isEmpty = true := by simpa [Volume.isFull, hstat, hlist] using empty
      have hdirectory : removeDirectory command recursive path s =
          removeWith command path (·.removeDirectory path) s := by
        rw [removeDirectory, Shell.bind_of_ok hlook]
        simp [hempty]
      rw [hdirectory]
      rcases removeWith_cases command path (·.removeDirectory path) rfl with
        ⟨tree, hremove, heq⟩ | ⟨e, heq⟩
      · exact .inl ⟨tree, .inr hremove, heq⟩
      · exact .inr ⟨e, heq⟩
  · exact .inr ⟨_, rfl⟩

/-- **An operand for which the user is asked**: a directory with entries, and no option. -/
def asks (recursive : Bool) (path : Path) (s : State) : Bool := !recursive && s.volume.isFull path

/-- **What one operand has come to.** -/
structure Handled (command : Command) (recursive : Bool) (path : Path) (s s' : State) : Prop where
  /-- There are still no links. -/
  linkless : s'.volume.tree.Linkless
  /-- The same operations are refused. -/
  interference : s'.volume.interference = s.volume.interference
  /-- The operand itself may be gone, and what lies below it by option or by consent. -/
  lost : ∀ l, s.volume.tree.get? l ≠ none → s'.volume.tree.get? l = none →
    l = path.names ∨ Tree.liesBelow path.names l = true ∧
      (recursive = true ∨ asks recursive path s = true ∧ s.console.agrees = true)
  /-- The user was asked if needed. -/
  console : s.console.Continues (if asks recursive path s then [removalPrompt command path] else [])
    s'.console

/-- What is pruned from the tree is all that is lost. -/
theorem Handled.of_prunes {s' : State} {lost : Location → Prop} (linkless : s.volume.tree.Linkless)
    (prunes : Tree.Prunes lost s.volume.tree s'.volume.tree)
    (interference : s'.volume.interference = s.volume.interference)
    (allowed : ∀ l, lost l → l = path.names ∨ Tree.liesBelow path.names l = true ∧
      (recursive = true ∨ asks recursive path s = true ∧ s.console.agrees = true))
    (console : s.console.Continues
      (if asks recursive path s then [removalPrompt command path] else []) s'.console) :
    Handled command recursive path s s' := by
  refine ⟨prunes.linkless linkless, interference, fun l hpresent hgone => ?_, console⟩
  rcases prunes l with heq | ⟨hlost, -⟩
  · exact absurd (heq ▸ hgone) hpresent
  · exact allowed l hlost

/-- A directory that is removed with all that lies below it loses nothing else. -/
theorem prunes_volume_removeAll {v : Volume} (linkless : v.tree.Linkless) (normal : path.IsNormal)
    (below : path.names ≠ []) :
    Tree.Prunes (fun l => l = path.names ∨ Tree.liesBelow path.names l = true) v.tree
      (v.removeAll path).2.tree := by
  unfold Volume.removeAll Volume.afterAttempt
  split
  · exact .refl _ v.tree
  · exact Tree.prunes_removeAll linkless normal below

/-- Nor does it change what is refused. -/
theorem interference_volume_removeAll (v : Volume) (path : Path) :
    (v.removeAll path).2.interference = v.interference := by
  unfold Volume.removeAll Volume.afterAttempt
  split <;> rfl

/-- **One operand handled**: by option, by consent, without consent, or without a question. -/
theorem handled_removeOne (command : Command) (recursive : Bool)
    (linkless : s.volume.tree.Linkless) (normal : path.IsNormal) (below : path.names ≠ []) :
    Handled command recursive path s (Shell.reached (removeOne command recursive path s)) := by
  rcases hfull : s.volume.isFull path with _ | _
  · have hasks : asks recursive path s = false := by simp [asks, hfull]
    have hquiet : s.console.Continues
        (if asks recursive path s then [removalPrompt command path] else []) s.console := by
      rw [hasks]
      exact .refl _
    rcases @removeOne_of_not_isFull command recursive path s hfull with
      ⟨tree, hremove, heq⟩ | ⟨e, heq⟩
    · have hprunes : Tree.Prunes (· = path.names) s.volume.tree tree := by
        rcases hremove with hremove | hremove
        · exact Tree.prunes_of_removeFile hremove linkless normal
        · exact Tree.prunes_of_removeDirectory hremove linkless normal below
      rw [heq]
      exact .of_prunes linkless hprunes rfl (fun l hl => .inl hl) hquiet
    · rw [heq]
      exact .of_prunes linkless (.refl (· = path.names) _) rfl (fun l hl => .inl hl) hquiet
  · have hprunes := prunes_volume_removeAll linkless normal below
    have hsame := interference_volume_removeAll s.volume path
    rw [removeOne_of_isFull hfull]
    cases recursive with
    | true =>
      rw [removeFull_recursive, reached_removeWith]
      exact .of_prunes linkless hprunes hsame
        (fun l hl => hl.imp_right fun hl => ⟨hl, .inl rfl⟩) (.refl _)
    | false =>
      have hasks : asks false path s = true := by simp [asks, hfull]
      rcases removeFull_asking command path s with
        ⟨hagrees, heq⟩ | ⟨-, s', heq, hasked, huntouched, -⟩
      · rw [heq, reached_removeWith]
        refine .of_prunes linkless hprunes hsame
          (fun l hl => hl.imp_right fun hl => ⟨hl, .inr ⟨hasks, hagrees⟩⟩) ?_
        rw [hasks]
        exact s.console.continues_ask _
      · rw [heq]
        refine ⟨linkless.congr huntouched.ways, huntouched.interference,
          fun l hpresent hgone => ?_, ?_⟩
        · exact absurd ((huntouched.present l).1 hgone) hpresent
        · rw [hasks]
          exact hasked

/-! ## All operands -/

/-- **The operands that a run reaches**, each with the state in which it reaches them. -/
def visits (command : Command) (recursive : Bool) : List Path → State → List (Path × State)
  | [], _ => []
  | path :: rest, s =>
    (path, s) ::
      match removeOne command recursive path s with
      | .ok _ s' =>
        visits command recursive rest (s'.logged .info (removalText command path))
      | .error _ _ => []

/-- **The operands for which the user is asked**, in order. -/
def askedFor (command : Command) (recursive : Bool) (paths : List Path) (s : State) : List Path :=
  ((visits command recursive paths s).filter fun visit => asks recursive visit.1 visit.2).map
    Prod.fst

/-- **An operand is reached in the state that the operands before it have left**, provided that all
of them ended well. -/
theorem mem_visits {paths : List Path} {s s₁ : State} :
    (path, s₁) ∈ visits command recursive paths s ↔
      ∃ before after, paths = before ++ path :: after ∧
        removeOperands command recursive before s = .ok () s₁ := by
  induction paths generalizing s with
  | nil => simp [visits]
  | cons first rest ih =>
    rw [visits, List.mem_cons]
    constructor
    · rintro (heq | hmem)
      · obtain ⟨rfl, rfl⟩ : path = first ∧ s₁ = s := by simpa using heq
        exact ⟨[], rest, rfl, rfl⟩
      · rcases hone : removeOne command recursive first s with ⟨⟨⟩, s'⟩ | ⟨e, s'⟩
        · rw [hone] at hmem
          obtain ⟨before, after, rfl, hrun⟩ := ih.1 hmem
          exact ⟨first :: before, after, rfl, by rw [removeOperands, Shell.bind_of_ok hone]; exact hrun⟩
        · rw [hone] at hmem
          cases hmem
    · rintro ⟨before, after, heq, hrun⟩
      cases before with
      | nil =>
        obtain ⟨rfl, rfl⟩ : first = path ∧ rest = after := by simpa using heq
        cases hrun
        exact .inl rfl
      | cons b before =>
        obtain ⟨rfl, rfl⟩ : first = b ∧ rest = before ++ path :: after := by simpa using heq
        rw [removeOperands] at hrun
        rcases hone : removeOne command recursive first s with ⟨⟨⟩, s'⟩ | ⟨e, s'⟩
        · rw [Shell.bind_of_ok hone] at hrun
          exact .inr (ih.2 ⟨before, after, rfl, hrun⟩)
        · rw [Shell.bind_of_error hone] at hrun
          cases hrun

/-- **What every operand keeps that ends well** holds in every state in which an operand is
reached. -/
theorem forall_mem_visits {paths : List Path} {P : State → Prop}
    (step : ∀ p ∈ paths, ∀ s₁ s₂, P s₁ → removeOne command recursive p s₁ = .ok () s₂ →
      P (s₂.logged .info (removalText command p)))
    (start : P s) : ∀ visit ∈ visits command recursive paths s, P visit.2 := by
  induction paths generalizing s with
  | nil => nofun
  | cons first rest ih =>
    intro visit hvisit
    rw [visits] at hvisit
    rcases List.mem_cons.1 hvisit with rfl | hvisit
    · exact start
    · rcases hone : removeOne command recursive first s with ⟨⟨⟩, s'⟩ | ⟨e, s'⟩
      · rw [hone] at hvisit
        have hnext := step first List.mem_cons_self s s' start hone
        exact ih (fun p hp => step p (List.mem_cons_of_mem _ hp)) hnext visit hvisit
      · rw [hone] at hvisit
        cases hvisit

/-- There are no links in any of these states, and what is refused stays the same from one operand
to the next. -/
theorem linkless_of_mem_visits {paths : List Path}
    (normal : ∀ p ∈ paths, p.IsNormal ∧ p.names ≠ []) (linkless : s.volume.tree.Linkless) :
    ∀ visit ∈ visits command recursive paths s, visit.2.volume.tree.Linkless ∧
      visit.2.volume.interference = s.volume.interference := by
  refine forall_mem_visits (P := fun s₁ => s₁.volume.tree.Linkless ∧
    s₁.volume.interference = s.volume.interference) ?_ ⟨linkless, rfl⟩
  intro p hp s₁ s₂ h hone
  obtain ⟨hlinkless, hinterference⟩ := h
  obtain ⟨hnormal, hbelow⟩ := normal p hp
  have hstep := handled_removeOne command recursive hlinkless hnormal hbelow
  rw [hone] at hstep
  exact ⟨hstep.linkless.congr (Volume.sameWays_logged _ _),
    (Volume.interference_logged _ _).trans (hstep.interference.trans hinterference)⟩

/-- **The user has agreed to the removal of a directory**: its prompt was shown, and the line that
was read for it begins with a y. -/
structure Agreed (command : Command) (path : Path) (s after : State) : Prop where
  /-- The question about the directory is the next thing that the console asks. -/
  shown : ∃ later, s.console.Continues
    ((command.name ++ ": ".toList ++ path.shownName ++
      " is not empty, remove it and everything in it? [y/n] ".toList) :: later) after.console
  /-- The next line is the answer. -/
  answered : s.console.agrees = true

/-- What an operand has lost is itself, or it lies below a directory that could be removed. -/
theorem Handled.consented {s' after : State} {later : List Text}
    (h : Handled command recursive path s s')
    (goesOn : s'.console.Continues later after.console) {l : Location}
    (present : s.volume.tree.get? l ≠ none) (gone : s'.volume.tree.get? l = none) :
    path.names = l ∨ Tree.liesBelow path.names l = true ∧
      (recursive = true ∨ Agreed command path s after) := by
  rcases h.lost l present gone with rfl | ⟨hbelow, hrecursive | ⟨hasks, hagrees⟩⟩
  · exact .inl rfl
  · exact .inr ⟨hbelow, .inl hrecursive⟩
  · have hasked := h.console
    rw [if_pos hasks] at hasked
    exact .inr ⟨hbelow, .inr ⟨⟨later, hasked.trans goesOn⟩, hagrees⟩⟩

/-- The prompts for some visits are that for the first one, if it has one, and those for the
others. -/
theorem prompts_cons (command : Command) (recursive : Bool) (path : Path) (s : State)
    (visits : List (Path × State)) :
    ((((path, s) :: visits).filter fun visit => asks recursive visit.1 visit.2).map
        Prod.fst).map (removalPrompt command) =
      (if asks recursive path s then [removalPrompt command path] else []) ++
        ((visits.filter fun visit => asks recursive visit.1 visit.2).map Prod.fst).map
          (removalPrompt command) := by
  rw [List.filter_cons]
  split <;> rfl

/-- **Operands handled one after the other.** What is gone was named, or lies below a directory that
was reached and could be removed; and the user was asked for just the operands that needed it. -/
theorem removeOperands_handled (command : Command) (recursive : Bool) {paths : List Path}
    (normal : ∀ p ∈ paths, p.IsNormal ∧ p.names ≠ []) (linkless : s.volume.tree.Linkless) :
    (∀ l, s.volume.tree.get? l ≠ none →
      (Shell.reached (removeOperands command recursive paths s)).volume.tree.get? l = none →
        (∃ p ∈ paths, p.names = l) ∨
          ∃ d s₁, (d, s₁) ∈ visits command recursive paths s ∧
            Tree.liesBelow d.names l = true ∧ (recursive = true ∨
              Agreed command d s₁ (Shell.reached (removeOperands command recursive paths s)))) ∧
      s.console.Continues ((askedFor command recursive paths s).map (removalPrompt command))
        (Shell.reached (removeOperands command recursive paths s)).console := by
  induction paths generalizing s with
  | nil => exact ⟨fun l hpresent hgone => absurd hgone hpresent, .refl _⟩
  | cons path rest ih =>
    obtain ⟨hnormal, hbelow⟩ := normal path List.mem_cons_self
    have hstep : Handled command recursive path s
        (Shell.reached (removeOne command recursive path s)) :=
      handled_removeOne command recursive linkless hnormal hbelow
    have hfirst {l : Location} {visits : List (Path × State)} {after : State}
        (h : path.names = l ∨ Tree.liesBelow path.names l = true ∧
          (recursive = true ∨ Agreed command path s after)) :
        (∃ p ∈ path :: rest, p.names = l) ∨ ∃ d s₁, (d, s₁) ∈ (path, s) :: visits ∧
          Tree.liesBelow d.names l = true ∧ (recursive = true ∨ Agreed command d s₁ after) :=
      h.imp (fun hl => ⟨path, List.mem_cons_self, hl⟩)
        fun ⟨hl, hwhy⟩ => ⟨path, s, List.mem_cons_self, hl, hwhy⟩
    rw [removeOperands, askedFor, visits, prompts_cons]
    rcases hone : removeOne command recursive path s with ⟨⟨⟩, s'⟩ | ⟨e, s'⟩
    · -- the operand is done, a record is made, and the rest is handled from there
      rw [hone] at hstep
      rw [Shell.bind_of_ok hone]
      obtain ⟨hlost, hconsole⟩ :=
        ih (s := s'.logged .info (removalText command path))
          (fun p hp => normal p (List.mem_cons_of_mem _ hp))
          (hstep.linkless.congr (Volume.sameWays_logged _ _))
      refine ⟨fun l hpresent hgone => ?_, hstep.console.trans hconsole⟩
      by_cases hearly : s'.volume.tree.get? l = none
      · exact hfirst (hstep.consented hconsole hpresent hearly)
      · have hlater : (s'.volume.logged ⟨.info, removalText command path⟩).tree.get? l ≠ none :=
          fun hnone => hearly (Volume.get?_logged_eq_none.1 hnone)
        rcases hlost l hlater hgone with ⟨p, hp, hl⟩ | ⟨d, s₁, hmem, hl, hwhy⟩
        · exact .inl ⟨p, List.mem_cons_of_mem _ hp, hl⟩
        · exact .inr ⟨d, s₁, List.mem_cons_of_mem _ hmem, hl, hwhy⟩
    · -- the operand ends the run
      rw [hone] at hstep
      rw [Shell.bind_of_error hone]
      refine ⟨fun l hpresent hgone => ?_, ?_⟩
      · exact hfirst (hstep.consented (.refl _) hpresent hgone)
      · simpa using hstep.console

/-- What a call reaches is what its operands reach. -/
theorem reached_run_remove (env : Environment) (removes : command = .rm ∨ command = .rmdir)
    (call : Call) (s : State) :
    Shell.reached (command.run env call s) =
      Shell.reached
        (removeOperands command (call.has Command.recursiveOption) call.paths s) := by
  have hrun : command.run env call = remove command call := by
    rcases removes with rfl | rfl <;> rfl
  rw [hrun, remove]
  rcases hoperands : removeOperands command (call.has Command.recursiveOption) call.paths s with
    ⟨⟨⟩, s'⟩ | ⟨e, s'⟩
  · rw [Shell.bind_of_ok hoperands]
    rfl
  · rw [Shell.bind_of_error hoperands]
    rfl

/-- **Nothing unnamed is removed without consent.** Whatever a run removes besides its own operands
lies below a directory among them for which the option was given, or whose prompt was shown and
answered with a y. Without the option the user is asked for just those operands that are directories
with entries when they are reached, in their order, and one line is read for each; where nothing
interferes these are the directories that have entries in the tree. Without consent nothing is
touched. -/
theorem removed_with_consent (env : Environment) {command : Command}
    (removes : command = .rm ∨ command = .rmdir) {call : Call} {s : State}
    (normal : ∀ p ∈ call.paths, p.IsNormal ∧ p.names ≠ []) (linkless : s.volume.tree.Linkless) :
    let recursive := call.has Command.recursiveOption
    let after := Shell.reached (command.run env call s)
    (∀ l, s.volume.tree.get? l ≠ none → after.volume.tree.get? l = none →
      (∀ p ∈ call.paths, p.names ≠ l) →
        ∃ d s₁, (d, s₁) ∈ visits command recursive call.paths s ∧
          Tree.liesBelow d.names l = true ∧ (recursive = true ∨ Agreed command d s₁ after)) ∧
    s.console.Continues
      ((askedFor command recursive call.paths s).map fun d =>
        command.name ++ ": ".toList ++ d.shownName ++
          " is not empty, remove it and everything in it? [y/n] ".toList) after.console ∧
    (s.volume.interference = .none → ∀ d s₁, (d, s₁) ∈ visits command recursive call.paths s →
      (asks recursive d s₁ = true ↔ recursive = false ∧ ∃ l n, s₁.volume.tree.locate d = .ok l ∧
        s₁.volume.tree.get? l = some .directory ∧ s₁.volume.tree.get? (l ++ [n]) ≠ none)) ∧
    ∀ d s₁, (d, s₁) ∈ visits command recursive call.paths s → asks recursive d s₁ = true →
      s₁.console.agrees = false →
        s₁.volume.Untouched (Shell.reached (removeOne command recursive d s₁)).volume := by
  intro recursive after
  have hafter : after = Shell.reached (removeOperands command recursive call.paths s) :=
    reached_run_remove env removes call s
  obtain ⟨hlost, hconsole⟩ := removeOperands_handled command recursive normal linkless
  rw [hafter]
  refine ⟨fun l hpresent hgone hunnamed => ?_, hconsole, fun free d s₁ hmem => ?_,
    fun d s₁ _ hasks hrefuses => ?_⟩
  · refine (hlost l hpresent hgone).resolve_left ?_
    rintro ⟨p, hp, hl⟩
    exact hunnamed p hp hl
  · have hfree : s₁.volume.interference = .none :=
      (linkless_of_mem_visits normal linkless (d, s₁) hmem).2.trans free
    rw [asks, Bool.and_eq_true_iff, Bool.not_eq_true', Volume.isFull_iff hfree]
  · obtain ⟨hasking, hfull⟩ := Bool.and_eq_true_iff.1 hasks
    obtain hrecursive : recursive = false := by simpa using hasking
    rw [removeOne_of_isFull hfull, hrecursive]
    rcases removeFull_asking command d s₁ with ⟨hagrees, -⟩ | ⟨-, s', heq, -, huntouched, -⟩
    · rw [hrefuses] at hagrees
      cases hagrees
    · rw [heq]
      exact huntouched

/-- A directory with a file in it that is removed by consent. -/
theorem removed_with_consent_yes :
    let tree : Tree := ⟨[([['d']], .directory), ([['d'], ['f']], .file .empty)]⟩
    let s : State := { State.atRoot tree with console := ⟨[.line ['y']], []⟩ }
    let call : Call := ⟨[], [.path ⟨['/', 'd']⟩], none⟩
    let after := Shell.reached (Command.rm.run .plain call s)
    after.volume.tree.get? [['d'], ['f']] = none ∧
      ∃ d s₁, Tree.liesBelow d.names [['d'], ['f']] = true ∧ Agreed .rm d s₁ after := by
  intro tree s call after
  have hpaths : call.paths = [⟨['/', 'd']⟩] := rfl
  have normal : ∀ p ∈ call.paths, p.IsNormal ∧ p.names ≠ [] := by
    intro p hp
    obtain rfl : p = ⟨['/', 'd']⟩ := by simpa [hpaths] using hp
    exact ⟨rfl, nofun⟩
  have linkless : tree.Linkless := Tree.linkless_of_entries (by simp [tree])
  have hpresent : tree.get? [['d'], ['f']] = some (.file .empty) := rfl
  have hgone : after.volume.tree.get? [['d'], ['f']] = none := by rfl
  have hunnamed : ∀ p ∈ call.paths, p.names ≠ [['d'], ['f']] := by
    rw [hpaths]
    decide
  obtain ⟨d, s₁, -, hbelow, hwhy⟩ := (removed_with_consent .plain (.inl rfl) normal linkless).1
    [['d'], ['f']] (Option.ne_none_iff_exists'.2 ⟨_, hpresent⟩) hgone hunnamed
  exact ⟨hgone, d, s₁, hbelow, hwhy.resolve_left (by decide)⟩

end FileShell
