import FileShell.Proofs.Command.Arguments
import FileShell.Proofs.Shell.Piping
import FileShell.Proofs.Volume.Removal

/-! # Browsing a file

A file can be paged through by its name, or its text can be piped to the pager. The pager reads the
lines of the file itself in the first case and finds the lines of the text in the second, and these
are the same lines. The two ways differ in the records that they make and in nothing else.

* **`State.SameButRecords`** — two states that nothing but records tells apart.
* **`paged`** — what it comes to that lines are shown page by page.
* **`more_as_cat_piped`** — the two ways compared. -/

namespace FileShell

/-! ## States that differ in their records -/

/-- **Two states differ in their records alone.** The same was shown, the same is left to be read,
and nothing but records lies between the files; where no file takes the records of stages, the files
are the same. -/
structure State.SameButRecords (s s' : State) : Prop where
  session : s'.session = s.session
  console : s'.console = s.console
  files : s.volume.Untouched s'.volume
  hidden : s.volume.HidesStages → s'.volume = s.volume

namespace State.SameButRecords

variable {s s' : State}

theorem refl (s : State) : s.SameButRecords s := ⟨rfl, rfl, .refl s.volume, fun _ => rfl⟩

/-- The record of a stage is a record. -/
theorem logged_info (h : s.SameButRecords s') (t : Text) :
    s.SameButRecords (s'.logged .info t) where
  session := h.session
  console := h.console
  files := h.files.logged _
  hidden hides := by
    have hides' : s'.volume.HidesStages := h.hidden hides ▸ hides
    exact (hides'.logged_info t).trans (h.hidden hides)

theorem logged_info_left (h : s.SameButRecords s') (t : Text) :
    (s.logged .info t).SameButRecords s' where
  session := h.session
  console := h.console
  files := h.files.logged_left _
  hidden hides := by
    rw [State.logged, Volume.HidesStages, Volume.log_logged] at hides
    exact (h.hidden hides).trans (Volume.HidesStages.logged_info hides t).symm

/-- Any record may be made on both sides. -/
theorem logged (h : s.SameButRecords s') (level : Level) (t : Text) :
    (s.logged level t).SameButRecords (s'.logged level t) where
  session := h.session
  console := h.console
  files := (h.files.logged_left _).logged _
  hidden hides := by
    rw [State.logged, Volume.HidesStages, Volume.log_logged] at hides
    rw [State.logged, State.logged, h.hidden hides]

/-- The same may be said on both sides. -/
theorem withConsole (h : s.SameButRecords s') (console : Console) :
    { s with console }.SameButRecords { s' with console } :=
  ⟨h.session, rfl, h.files, h.hidden⟩

end State.SameButRecords

/-! ## Files that can be read -/

/-- **A file with a text can be read**: nothing interferes with it, it holds the bytes of the text,
and it is not the file to which the records of stages go. -/
structure Volume.Legible (v : Volume) (p : Path) (text : Text) : Prop where
  allowed : ∀ o, v.interference.refusal o p = none
  reads : v.tree.readText p = .ok text
  quiet : v.HidesStages ∨ v.LogElsewhere p

variable {v : Volume} {p : Path} {text : Text}

/-- What can be read is a file. -/
theorem Tree.stat_of_readText {t : Tree} (h : t.readText p = .ok text) : t.stat p = .file := by
  obtain ⟨content, hcontent, -⟩ := readText_eq_ok.1 h
  exact stat_eq_file.2 ⟨content, hcontent⟩

/-- A record that goes elsewhere leaves a text as it is. -/
theorem Volume.readText_logged (h : v.LogElsewhere p) (r : Record)
    (reads : v.tree.readText p = .ok text) : (v.logged r).tree.readText p = .ok text := by
  rw [Tree.readText_eq_ok] at reads ⊢
  rwa [contents?_logged h]

/-- The record of a stage leaves a file legible. -/
theorem Volume.Legible.logged_info (h : v.Legible p text) (t : Text) :
    (v.logged ⟨.info, t⟩).Legible p text := by
  rcases h.quiet with hides | elsewhere
  · rwa [hides.logged_info]
  · refine ⟨?_, readText_logged elsewhere _ h.reads, .inr (elsewhere.logged _)⟩
    rw [interference_logged]
    exact h.allowed

/-- The text of a legible file is found. -/
theorem fileText_of_legible (h : v.Legible p text) : fileText v p = .ok text := by
  have hstat : v.stat p = .file := by
    rw [Volume.stat, h.allowed .stat]
    exact Tree.stat_of_readText h.reads
  have hread : v.readText p = .ok text := by
    rw [Volume.readText, Volume.unlessRefused, h.allowed .readText]
    exact h.reads
  rw [fileText, hstat]
  simp only [hread]
  rfl

/-- The text of one legible file is what the file adds to the texts of files. -/
theorem fileTexts_of_legible (h : v.Legible p text) : fileTexts v [p] = .ok text := by
  rw [fileTexts, fileText_of_legible h, Outcome.ok_bind, fileTexts, Outcome.ok_bind,
    List.append_nil]
  rfl

/-- **The lines to browse are those of the file's text**, unless reading them is refused. -/
theorem linesToBrowse_of_readText {call : Call} (named : call.paths = [p])
    (allowed : v.interference.refusal .readLines p = none) (reads : v.tree.readText p = .ok text) :
    linesToBrowse call v = .ok text.lines := by
  have hstat : v.stat p ≠ .directory := by
    rw [Volume.stat]
    split
    · decide
    · rw [Tree.stat_of_readText reads]
      decide
  have hread : v.readLines p = .ok text.lines := by
    rw [Volume.readLines, Volume.unlessRefused, allowed]
    simp only [reads]
    rfl
  simp only [linesToBrowse, named, List.head?_cons, if_neg hstat, hread]

/-! ## The stages -/

/-- **A stage that reads the file of one word.** -/
def Stage.reading (command : Command) (word : Text) : Stage :=
  ⟨command, ⟨[], [.path word .single]⟩, none⟩

/-- **A stage that shows its input page by page.** -/
def Stage.browsing : Stage := ⟨.more, ⟨[], []⟩, none⟩

/-- **What lines shown page by page come to**: the console is used, and nothing else. -/
def paged (pageSize : Nat) (lines : List Text) (s : State) : EStateM.Result Failure State Unit :=
  match (Pager.start lines pageSize).show s.console with
  | (.ok _, console) => .ok () { s with console }
  | (.error e, console) => .error e { s with console }

theorem paged_of_show {pageSize : Nat} {lines : List Text} {s : State} {console : Console}
    (h : (Pager.start lines pageSize).show s.console = (.ok (), console)) :
    paged pageSize lines s = .ok () { s with console } := by
  rw [paged, h]

/-- A pager that has its lines pages through them, and nothing is delivered then. -/
theorem more_deliver {pageSize : Nat} {call : Call} {lines : List Text} {s : State}
    (h : linesToBrowse call s.volume = .ok lines) :
    (more pageSize call >>= fun output => deliver output none) s = paged pageSize lines s := by
  have hlook : Shell.look (linesToBrowse call) s = .ok (.ok lines) s := by rw [Shell.look, h]
  have hmore : more pageSize call s =
      (Shell.converse (Pager.start lines pageSize).show >>= fun shown =>
        Shell.ofExcept shown >>= fun _ => pure []) s := by
    rw [more, Shell.bind_of_ok hlook]
    rfl
  rw [paged]
  rcases hshow : (Pager.start lines pageSize).show s.console with ⟨e | _, console⟩
  · have htalk : Shell.converse (Pager.start lines pageSize).show s =
        .ok (.error e) { s with console } := by rw [Shell.converse, hshow]
    rw [Shell.bind_of_ok htalk] at hmore
    exact Shell.bind_of_error hmore
  · have htalk : Shell.converse (Pager.start lines pageSize).show s =
        .ok (.ok ()) { s with console } := by rw [Shell.converse, hshow]
    rw [Shell.bind_of_ok htalk] at hmore
    exact Shell.bind_of_ok hmore

/-- **Lines shown in states that differ in their records** end in the same way. -/
theorem sameEnd_paged (pageSize : Nat) (lines : List Text) {s s' : State}
    (h : s.SameButRecords s') :
    Shell.SameEnd State.SameButRecords (paged pageSize lines s) (paged pageSize lines s') := by
  rw [paged, paged, h.console]
  rcases (Pager.start lines pageSize).show s.console with ⟨e | _, console⟩
  · exact .error e (h.withConsole console)
  · exact .ok () (h.withConsole console)

section

variable {env : Environment} {word : Text} {s : State}

/-- **A file is browsed.** -/
theorem execute_reading_more
    (allowed : s.volume.interference.refusal .readLines (s.session.resolve word) = none)
    (reads : (s.logged .info (stageRecord 1 1 .more)).volume.tree.readText
      (s.session.resolve word) = .ok text) :
    execute env [.reading .more word] s =
      paged env.config.settings.pageSize text.lines (s.logged .info (stageRecord 1 1 .more)) := by
  have hlines : linesToBrowse ⟨[], [.path (s.session.resolve word)], none⟩
      (s.logged .info (stageRecord 1 1 .more)).volume = .ok text.lines :=
    linesToBrowse_of_readText rfl (by rwa [State.logged, Volume.interference_logged]) reads
  rw [← more_deliver hlines]
  rfl

/-- **The text of a file is what its stage puts out**, wherever it is delivered. -/
theorem runStage_reading_cat (legible : s.volume.Legible (s.session.resolve word) text)
    (total number : Nat) (target : Option Redirection) :
    runStage env total number { Stage.reading .cat word with redirection := target } none s =
      .ok text (s.logged .info (stageRecord number total .cat)) := by
  have htexts : fileTexts (s.logged .info (stageRecord number total .cat)).volume
      [s.session.resolve word] = .ok text := fileTexts_of_legible (legible.logged_info _)
  change Shell.ofExcept ((fileTexts (s.logged .info (stageRecord number total .cat)).volume
    [s.session.resolve word]).mapError .execution)
      (s.logged .info (stageRecord number total .cat)) = _
  rw [htexts]
  rfl

/-- **The text of a file is piped to the pager.** -/
theorem execute_reading_cat_browsing (legible : s.volume.Legible (s.session.resolve word) text) :
    execute env [.reading .cat word, .browsing] s =
      paged env.config.settings.pageSize text.lines
        ((s.logged .info (stageRecord 1 2 .cat)).logged .info (stageRecord 2 2 .more)) := by
  have hcat : runStage env 2 1 (.reading .cat word) none s =
      .ok text (s.logged .info (stageRecord 1 2 .cat)) := runStage_reading_cat legible 2 1 none
  have hlines : linesToBrowse ⟨[], [], some text⟩
      ((s.logged .info (stageRecord 1 2 .cat)).logged .info (stageRecord 2 2 .more)).volume =
        .ok text.lines := rfl
  rw [execute, runStages_cons_cons, List.length_cons, List.length_singleton,
    Shell.bind_of_ok hcat, ← more_deliver hlines]
  rfl

end

/-! ## The two ways -/

/-- **A single word is read as a stage that reads its file**, by either of the two commands if it is
not switched off. -/
theorem readStage_reading {c : Config} {command : Command} {word : Text}
    (reader : command = .cat ∨ command = .more) (enabled : c.enables command = true)
    (single : WordKind.ofWord? word = some .single) :
    c.readStage ⟨command.name, [word], none⟩ = .ok (.reading command word) := by
  have hlookup : c.lookUp command.name = .ok command := Config.lookUp_eq_ok.2 ⟨rfl, enabled⟩
  have hoperand (requirement : Requirement) (path : requirement ≠ .free) (i : Nat)
      (operand : Operand) (hi : [Operand.path word .single][i]? = some operand) :
      operand.Suits requirement := by
    obtain rfl : operand = .path word .single := by simpa using List.mem_of_getElem? hi
    exact ⟨path, single, nofun⟩
  have hread : command.signature.read command.name [word] = .ok ⟨[], [.path word .single]⟩ := by
    refine Signature.read_eq_ok_iff.2 ?_
    rcases reader with rfl | rfl
    · exact ⟨fun _ _ => rfl, rfl, rfl,
        nofun, Nat.zero_le 1, nofun, hoperand .singleOrWildcard nofun⟩
    · refine ⟨fun _ _ => rfl, rfl, rfl, nofun, Nat.zero_le 1, ?_, hoperand .single nofun⟩
      rintro max ⟨⟩
      exact Nat.le_refl 1
  rw [Config.readStage, hlookup]
  change (command.signature.read command.name [word] >>= _) = _
  rw [hread]
  rfl

/-- Without a word there is a stage that shows its input. -/
theorem readStage_browsing {c : Config} (enabled : c.enables .more = true) :
    c.readStage ⟨Command.more.name, [], none⟩ = .ok .browsing := by
  have hlookup : c.lookUp Command.more.name = .ok .more := Config.lookUp_eq_ok.2 ⟨rfl, enabled⟩
  rw [Config.readStage, hlookup]
  rfl

/-- **The two pipelines end in the same way** in states that differ in their records. -/
theorem sameEnd_execute {env : Environment} {word : Text} {s s' : State}
    (related : s.SameButRecords s') (legible : s.volume.Legible (s.session.resolve word) text)
    (legible' : s'.volume.Legible (s'.session.resolve word) text) :
    Shell.SameEnd State.SameButRecords (execute env [.reading .more word] s)
      (execute env [.reading .cat word, .browsing] s') := by
  rw [execute_reading_more (legible.allowed .readLines) (legible.logged_info _).reads,
    execute_reading_cat_browsing legible']
  exact sameEnd_paged _ _
    (((related.logged_info_left _).logged_info _).logged_info _)

/-- Lines end in the same way if their stages do. -/
theorem sameEnd_runLine {env : Environment} {line line' : Text} {stages stages' : List Stage}
    {s : State} (parsed : env.config.parse line = .ok stages)
    (parsed' : env.config.parse line' = .ok stages')
    (h : Shell.SameEnd State.SameButRecords (execute env stages (s.logged .info (lineRecord line)))
      (execute env stages' (s.logged .info (lineRecord line')))) :
    Shell.SameEnd State.SameButRecords (runLine env line s) (runLine env line' s) := by
  rw [runLine_of_parse_eq_ok parsed, runLine_of_parse_eq_ok parsed']
  generalize execute env stages (s.logged .info (lineRecord line)) = r,
    execute env stages' (s.logged .info (lineRecord line')) = r' at h
  cases h with
  | ok _ related => exact .ok () related
  | error e related =>
    -- the request to leave is the one failure that is not recorded
    cases e with
    | halt => exact .error .halt related
    | line _ | argument _ | path _ | execution _ => exact .error _ (related.logged _ _)

/-- **To page through a file is to pipe its text to the pager.** The word names a single path, and
both commands can be called, so that there are the two pipelines. The file of the word can be read.
Then from any state the two pipelines end with the same result or the same failure, whatever the
user types, and so do any lines that are read as these pipelines. The same was shown in the same
order, the same input is left unread, and nothing but records tells the files and the journals
apart. -/
theorem more_as_cat_piped (env : Environment) {word text : Text} (s : State)
    (single : WordKind.ofWord? word = some .single) (enabledCat : env.config.enables .cat = true)
    (enabledMore : env.config.enables .more = true)
    (legible : s.volume.Legible (s.session.resolve word) text) :
    env.config.readStage ⟨Command.more.name, [word], none⟩ = .ok (.reading .more word) ∧
      env.config.readStage ⟨Command.cat.name, [word], none⟩ = .ok (.reading .cat word) ∧
      env.config.readStage ⟨Command.more.name, [], none⟩ = .ok .browsing ∧
      Shell.SameEnd State.SameButRecords (execute env [.reading .more word] s)
        (execute env [.reading .cat word, .browsing] s) ∧
      ∀ line line', env.config.parse line = .ok [.reading .more word] →
        env.config.parse line' = .ok [.reading .cat word, .browsing] →
        Shell.SameEnd State.SameButRecords (runLine env line s) (runLine env line' s) := by
  refine ⟨readStage_reading (.inr rfl) enabledMore single,
    readStage_reading (.inl rfl) enabledCat single, readStage_browsing enabledMore,
    sameEnd_execute (.refl s) legible legible, fun line line' parsed parsed' => ?_⟩
  have related : (s.logged .info (lineRecord line)).SameButRecords
      (s.logged .info (lineRecord line')) :=
    ((State.SameButRecords.refl s).logged_info_left _).logged_info _
  exact sameEnd_runLine parsed parsed'
    (sameEnd_execute related (legible.logged_info _) (legible.logged_info _))

/-- Three lines, one of them empty, on pages of one line, and a key that means nothing. -/
theorem more_as_cat_piped_lines :
    let env : Environment := { Environment.plain with config.settings.pageSize := 1 }
    let tree := Tree.empty.set [['f']] (.file (Text.bytes "a\r\n\nb".toList))
    let s : State :=
      { State.atRoot tree with console := ⟨[.line [], .line ['x'], .line [' ']], []⟩ }
    WordKind.ofWord? ['f'] = some .single ∧ env.config.enables .cat = true ∧
      env.config.enables .more = true ∧ s.volume.Legible ⟨"/f".toList⟩ "a\r\n\nb".toList ∧
      Text.lines "a\r\n\nb".toList = ["a".toList, [], "b".toList] ∧
      Shell.SameEnd State.SameButRecords (runLine env "more f".toList s)
        (runLine env "cat f | more".toList s) := by
  intro env tree s
  have legible : s.volume.Legible ⟨"/f".toList⟩ "a\r\n\nb".toList := by
    refine ⟨fun _ => rfl, Tree.readText_eq_ok.2 ⟨_, ?_, textOfBytes?_bytes _⟩,
      .inl (Volume.hidesStages_of_log_eq_none rfl)⟩
    rfl
  have single : WordKind.ofWord? ['f'] = some .single := by decide
  exact ⟨single, rfl, rfl, legible, by decide,
    (more_as_cat_piped env s single rfl rfl legible).2.2.2.2 _ _ rfl rfl⟩

end FileShell
