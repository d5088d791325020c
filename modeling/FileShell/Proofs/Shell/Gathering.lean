import FileShell.Proofs.Shell.Browsing

/-! # Gathering files into one

All files of a call are read before its output is delivered. So the file that takes the output may
be one of those that were read, under its own path or by a link: it still receives the bytes that
all of them had when the line began.

* **`fileTexts_eq_ok`** — what is put out are the texts of the files, one after the other.
* **`Gathered`** — what it means that files were gathered into one.
* **`gathered_round_trip`** — a line that gathers, and another one that passes its result on. -/

namespace FileShell

/-! ## Bytes -/

/-- **Bytes are read as a text** if they are the bytes of that text, and only then. -/
theorem textOfBytes?_eq_some {bytes : ByteArray} {text : Text} :
    textOfBytes? bytes = some text ↔ bytes = text.bytes := by
  constructor
  · intro h
    obtain ⟨string, hstring, rfl⟩ := Option.map_eq_some_iff.1 h
    unfold String.fromUTF8? at hstring
    split at hstring
    · cases hstring
      rw [Text.bytes, String.ofList_toList]
      rfl
    · cases hstring
  · rintro rfl
    exact textOfBytes?_bytes text

/-- **Bytes one after the other.** -/
def joinedBytes (contents : List ByteArray) : ByteArray := contents.foldr (· ++ ·) .empty

/-- The bytes of texts one after the other are those of the texts. -/
theorem Text.bytes_flatten (texts : List Text) :
    Text.bytes texts.flatten = joinedBytes (texts.map Text.bytes) := by
  induction texts with
  | nil => rfl
  | cons text texts ih => rw [List.flatten_cons, bytes_append, ih]; rfl

/-- A text is read where its bytes are. -/
theorem Tree.readText_iff_contents? {t : Tree} {p : Path} {text : Text} :
    t.readText p = .ok text ↔ t.contents? p = some text.bytes := by
  rw [readText_eq_ok]
  simp only [textOfBytes?_eq_some]
  constructor
  · rintro ⟨_, hcontents, rfl⟩
    exact hcontents
  · intro hcontents
    exact ⟨_, hcontents, rfl⟩

/-! ## Reading -/

variable {v : Volume} {p : Path} {text : Text}

/-- The text of a file is found if no look is refused and the file holds a text. -/
theorem readText_of_fileText (h : fileText v p = .ok text) : v.tree.readText p = .ok text := by
  unfold fileText at h
  split at h
  · cases h
  · cases h
  · rw [Outcome.mapError_eq_ok_iff, Volume.readText, Volume.unlessRefused] at h
    split at h
    · cases h
    · exact h

/-- **The texts of files one after the other** are put out if each of them can be read. -/
theorem fileTexts_eq_ok {paths : List Path} {output : Text} :
    fileTexts v paths = .ok output ↔
      ∃ texts, List.Forall₂ (fun p text => fileText v p = .ok text) paths texts ∧
        output = texts.flatten := by
  induction paths generalizing output with
  | nil =>
    constructor
    · intro h
      cases h
      exact ⟨[], .nil, rfl⟩
    · rintro ⟨_, ⟨⟩, rfl⟩
      rfl
  | cons p paths ih =>
    rw [fileTexts, Outcome.bind_eq_ok]
    simp only [Outcome.bind_eq_ok, ih, Outcome.pure_eq, Except.ok.injEq]
    constructor
    · rintro ⟨text, htext, _, ⟨texts, htexts, rfl⟩, rfl⟩
      exact ⟨text :: texts, .cons htext htexts, rfl⟩
    · rintro ⟨_, _ | ⟨htext, htexts⟩, rfl⟩
      exact ⟨_, htext, _, ⟨_, htexts, rfl⟩, rfl⟩

/-! ## Paths that no record reaches -/

/-- **No record of a line or a stage reaches the file of a path.** -/
def Volume.QuietAt (v : Volume) (p : Path) : Prop := v.HidesStages ∨ v.LogElsewhere p

/-- What is quiet stays so as long as every path leads where it led and no log is opened. -/
theorem Volume.QuietAt.congr {v' : Volume} (quiet : v.QuietAt p) (same : Tree.SameWays v.tree v'.tree)
    (log : ∀ log, v'.log = some log → v.log = some log) : v'.QuietAt p := by
  rcases quiet with hides | elsewhere
  · exact .inl fun open_ hopen => hides open_ (log open_ hopen)
  · exact .inr fun l hl open_ hopen =>
      elsewhere l ((Tree.locate_congr same).2 hl) open_ (log open_ hopen)

/-- A path keeps its contents while only records are made. -/
theorem State.SameButRecords.contents?_eq {s s' : State} (h : s.SameButRecords s')
    (quiet : s.volume.QuietAt p) : s'.volume.tree.contents? p = s.volume.tree.contents? p := by
  rcases quiet with hides | elsewhere
  · rw [h.hidden hides]
  · exact h.files.contents?_eq elsewhere

/-- Where a text was written there was no directory. -/
theorem Volume.ne_directory_of_write {mode : WriteMode} {l : Location}
    (writes : (v.write p text mode).1 = .ok ()) (here : v.tree.locate p = .ok l) :
    v.tree.get? l ≠ some .directory := by
  rcases v.changed_cases .write p (v.tree.write p text mode) with
    ⟨tree, -, hwrite, -⟩ | ⟨-, e, heq⟩
  · obtain ⟨m, hm, free, -⟩ := Tree.write_eq_ok.1 hwrite
    rwa [Except.ok.inj (here.symm.trans (Tree.locate_of_locateForWriting hm))]
  · have hwrite : v.write p text mode = (.error e, v) := heq
    rw [hwrite] at writes
    cases writes

section

variable {env : Environment} {arguments : Arguments} {s s' : State} {output : Text}
variable {total number : Nat} {piped : Option Text} {target : Option Redirection}

/-- A stage that reads files puts out the texts of all paths of its call. -/
theorem runStage_cat {call : Call}
    (bound : bindStage env ⟨.cat, arguments, target⟩ piped s = .ok call s)
    (given : arguments.operands ≠ []) :
    runStage env total number ⟨.cat, arguments, target⟩ piped s =
      Shell.ofExcept ((fileTexts (s.logged .info (stageRecord number total .cat)).volume
        call.paths).mapError .execution) (s.logged .info (stageRecord number total .cat)) := by
  obtain ⟨operands, hoperands, -, hcall⟩ := exists_bound_of_bind (bind_of_bindStage bound)
  have hgiven : call.operands.isEmpty = false := by
    rw [Bool.eq_false_iff, ne_eq, List.isEmpty_iff, hcall, ← List.length_eq_zero_iff,
      (getElem?_of_bindOperands hoperands).1, List.length_eq_zero_iff]
    exact given
  rw [runStage_of_bindStage bound]
  simp only [Command.run, cat, hgiven, Bool.false_eq_true, if_false]
  rfl

/-- **What a stage puts out that reads files** are the texts of the files that its operands stand
for, one after the other, and it does nothing else but make its record. -/
theorem texts_of_runStage_cat (given : arguments.operands ≠ [])
    (h : runStage env total number ⟨.cat, arguments, target⟩ piped s = .ok output s') :
    s' = s.logged .info (stageRecord number total .cat) ∧
      ∃ texts, output = texts.flatten ∧
        List.Forall₂ (fun p text => s'.volume.tree.readText p = .ok text)
          (arguments.operands.flatMap
            (s.session.pathsOf s.volume (env.config.matchScope Command.cat.name))) texts := by
  rcases bindStage_cases env ⟨.cat, arguments, target⟩ piped s with ⟨call, bound⟩ | ⟨e, fails⟩
  · rw [runStage_cat bound given, Shell.ofExcept_apply] at h
    split at h
    · next texts htexts =>
      cases h
      obtain ⟨texts, hread, rfl⟩ := fileTexts_eq_ok.1 (Outcome.mapError_eq_ok_iff.1 htexts)
      rw [← paths_of_bind (bind_of_bindStage bound)]
      exact ⟨rfl, texts, rfl, hread.imp fun _ _ => readText_of_fileText⟩
    · cases h
  · rw [runStage, Shell.bind_of_error fails] at h
    cases h

/-! ## Files gathered -/

/-- **Files were gathered into one**: the file that a path leads to has taken the texts that the
given files had before, one after the other and with no byte more or less, and nothing else has
changed. Only where records of lines and stages are written may there be more of them. -/
structure Gathered (paths : List Path) (target : Path) (s s' : State) : Prop where
  texts : ∃ texts, List.Forall₂ (fun p text => s.volume.tree.readText p = .ok text) paths texts ∧
    s'.volume.tree.readText target = .ok texts.flatten
  bytes : ∃ contents, List.Forall₂ (fun p content => s.volume.tree.contents? p = some content)
      paths contents ∧ s'.volume.tree.contents? target = some (joinedBytes contents)
  elsewhere : ∃ l, s.volume.tree.locate target = .ok l ∧ s'.volume.tree.locate target = .ok l ∧
    ∀ m, m ≠ l → s.volume.HidesStages ∨ s.volume.LogApart m →
      s'.volume.tree.get? m = s.volume.tree.get? m
  /-- Every path leads where it led. -/
  ways : Tree.SameWays s.volume.tree s'.volume.tree
  interference : s'.volume.interference = s.volume.interference
  /-- No log was opened. -/
  log : ∀ log, s'.volume.log = some log → s.volume.log = some log
  session : s'.session = s.session
  console : s'.console = s.console

/-- The file of a single path is gathered as it is. -/
theorem Gathered.of_singleton {target : Path} (h : Gathered [p] target s s') :
    s'.volume.tree.readText target = s.volume.tree.readText p ∧
      s'.volume.tree.contents? target = s.volume.tree.contents? p := by
  obtain ⟨_, _ | ⟨hread, ⟨⟩⟩, htarget⟩ := h.texts
  rw [List.flatten_cons, List.flatten_nil, List.append_nil] at htarget
  rw [hread, htarget, Tree.readText_iff_contents?.1 hread, Tree.readText_iff_contents?.1 htarget]
  exact ⟨rfl, rfl⟩

/-- **An output that was delivered has gathered the files** whose texts it is made of, even if the
file that has taken it is one of them. -/
theorem gathered_of_redirected {paths : List Path} {target : Path} {s₁ : State} {texts : List Text}
    (related : s.SameButRecords s₁) (log : s₁.volume.log = s.volume.log)
    (quiet : ∀ p ∈ paths, s.volume.QuietAt p)
    (reads : List.Forall₂ (fun p text => s₁.volume.tree.readText p = .ok text) paths texts)
    (h : Redirected .truncate target texts.flatten s₁ (.ok () s')) :
    Gathered paths target s s' := by
  -- records have come between, but none to the files that were read
  have before : List.Forall₂ (fun p text => s.volume.tree.contents? p = some (Text.bytes text))
      paths texts := by
    refine ((List.forall₂_and_left paths texts).2 ⟨quiet, reads⟩).imp fun p text h => ?_
    rw [← related.contents?_eq h.1]
    exact Tree.readText_iff_contents?.1 h.2
  cases h with
  | @written l tree writes here there content elsewhere =>
    have free := Volume.ne_directory_of_write writes here
    obtain ⟨m, there', stands⟩ := Tree.contents?_eq_some.1 content
    obtain rfl : l = m := Except.ok.inj (there.symm.trans there')
    -- a file stands where the output went, and no directory or link did: no way has changed
    have same : Tree.SameWays s₁.volume.tree tree :=
      .of_eq_off elsewhere ⟨free, (Tree.grounded_of_locate here).plain⟩ (by simp [stands])
    refine ⟨⟨texts, ?_, ?_⟩, ⟨texts.map Text.bytes, ?_, ?_⟩,
      ⟨l, (Tree.locate_congr related.files.ways).2 here, there, fun m hm quiet => ?_⟩,
      related.files.ways.trans same, related.files.interference, fun log' hlog => ?_,
      related.session, related.console⟩
    · exact before.imp fun _ _ => Tree.readText_iff_contents?.2
    · exact Tree.readText_iff_contents?.2 content
    · exact List.forall₂_map_right_iff.2 before
    · rw [← Text.bytes_flatten]
      exact content
    · refine (elsewhere m hm).trans ?_
      rcases quiet with hides | apart
      · rw [related.hidden hides]
      · exact (related.files.apart m apart).2
    · rw [← log]
      exact Option.eq_some_of_filter_eq_some hlog

/-- **The paths that a line reads** whose only stage has the given operands: these stand for what
they match when the stage begins, after the record of the line was made. -/
def pathsRead (env : Environment) (line : Text) (arguments : Arguments) (s : State) : List Path :=
  arguments.operands.flatMap (s.session.pathsOf (s.logged .info (lineRecord line)).volume
    (env.config.matchScope Command.cat.name))

/-- **A line that reads files and sends their texts to a file** gathers them. -/
theorem gathered_of_runLine {line target : Text}
    (parsed : env.config.parse line = .ok [⟨.cat, arguments, some ⟨.truncate, target⟩⟩])
    (given : arguments.operands ≠ [])
    (quiet : ∀ p ∈ pathsRead env line arguments s, s.volume.QuietAt p)
    (run : runLine env line s = .ok () s') :
    Gathered (pathsRead env line arguments s) (s.session.resolve target) s s' := by
  have hexecute := execute_of_runLine_eq_ok parsed run
  rw [execute, runStages_singleton] at hexecute
  rcases hrun : runStage env 1 1 ⟨.cat, arguments, some ⟨.truncate, target⟩⟩ none
    (s.logged .info (lineRecord line)) with ⟨output, s₁⟩ | ⟨e, s₁⟩
  · obtain ⟨rfl, texts, rfl, reads⟩ := texts_of_runStage_cat given hrun
    have hdeliver := deliver_some texts.flatten ⟨.truncate, s.session.resolve target⟩
      ((s.logged .info (lineRecord line)).logged .info (stageRecord 1 1 .cat))
    rw [← Shell.bind_of_ok (f := fun output =>
      deliver output (some ⟨.truncate, s.session.resolve target⟩)) hrun] at hdeliver
    refine gathered_of_redirected (((State.SameButRecords.refl s).logged_info _).logged_info _) ?_
      quiet reads (hexecute ▸ hdeliver)
    rw [State.logged, State.logged, Volume.log_logged, Volume.log_logged]
  · cases (Shell.bind_of_error hrun).symm.trans hexecute

/-- **A line that sends the text of one file to another** can only fail in that the other one cannot
be written. -/
theorem cannotWrite_of_runLine {line source target : Text} {e : Failure}
    (parsed : env.config.parse line =
      .ok [{ Stage.reading .cat source with redirection := some ⟨.truncate, target⟩ }])
    (legible : s.volume.Legible (s.session.resolve source) text)
    (run : runLine env line s = .error e s') :
    ∃ cause, e = .execution (.cannotWrite (s.session.resolve target) cause) := by
  have hstage : runStage env 1 1
      { Stage.reading .cat source with redirection := some ⟨.truncate, target⟩ } none
      (s.logged .info (lineRecord line)) = .ok text
        ((s.logged .info (lineRecord line)).logged .info (stageRecord 1 1 .cat)) :=
    runStage_reading_cat (legible.logged_info _) 1 1 _
  obtain ⟨s₂, hexecute, -⟩ := execute_of_runLine_eq_error parsed run
  rw [execute, List.length_singleton, runStages_singleton, runLast,
    Shell.bind_of_ok hstage] at hexecute
  have hdeliver := deliver_some text ⟨.truncate, s.session.resolve target⟩
    ((s.logged .info (lineRecord line)).logged .info (stageRecord 1 1 .cat))
  generalize hresult : deliver text (some ⟨.truncate, s.session.resolve target⟩)
    ((s.logged .info (lineRecord line)).logged .info (stageRecord 1 1 .cat)) = result at hdeliver
  obtain rfl := hresult.symm.trans hexecute
  cases hdeliver with
  | refused fails => exact ⟨_, rfl⟩

/-- **What was read from the files of a line arrives byte for byte** in the file that its output is
sent to, in the order of its operands, and nothing else changes, even if that file is one of those
that were read or a link leads to it. The wildcards stand for what they match when the line begins;
no record reaches the files that are read. A line after it that reads this file and sends its text
on makes any file read the same, and it can only fail in that the other file cannot be written. -/
theorem gathered_round_trip (env : Environment) {line target : Text}
    (parsed : env.config.parse line = .ok [⟨.cat, arguments, some ⟨.truncate, target⟩⟩])
    (given : arguments.operands ≠ [])
    (quiet : ∀ p ∈ pathsRead env line arguments s, s.volume.QuietAt p)
    (run : runLine env line s = .ok () s') :
    Gathered (pathsRead env line arguments s) (s.session.resolve target) s s' ∧
      ∀ (env' : Environment) (line' word : Text),
        env'.config.parse line' =
          .ok [{ Stage.reading .cat target with redirection := some ⟨.truncate, word⟩ }] →
        (∀ o, s.volume.interference.refusal o (s.session.resolve target) = none) →
        s.volume.QuietAt (s.session.resolve target) →
        (∀ s'', runLine env' line' s' = .ok () s'' →
          Gathered [s.session.resolve target] (s.session.resolve word) s' s'' ∧
            s''.volume.tree.readText (s.session.resolve word) =
              s'.volume.tree.readText (s.session.resolve target) ∧
            s''.volume.tree.contents? (s.session.resolve word) =
              s'.volume.tree.contents? (s.session.resolve target)) ∧
        ∀ e s'', runLine env' line' s' = .error e s'' →
          ∃ cause, e = .execution (.cannotWrite (s.session.resolve word) cause) := by
  have gathered := gathered_of_runLine parsed given quiet run
  refine ⟨gathered, fun env' line' word parsed' allowed clear => ?_⟩
  have clear' : s'.volume.QuietAt (s.session.resolve target) := clear.congr gathered.ways gathered.log
  refine ⟨fun s'' hrun => ?_, fun e s'' hrun => ?_⟩
  · have passed : Gathered [s'.session.resolve target] (s'.session.resolve word) s' s'' :=
      gathered_of_runLine parsed' (List.cons_ne_nil _ _) (fun p hp => by
        obtain rfl : p = s'.session.resolve target := List.mem_singleton.1 hp
        rwa [gathered.session]) hrun
    rw [gathered.session] at passed
    exact ⟨passed, passed.of_singleton⟩
  · obtain ⟨texts, -, hread⟩ := gathered.texts
    have legible : s'.volume.Legible (s'.session.resolve target) texts.flatten :=
      ⟨by rwa [gathered.interference, gathered.session], by rwa [gathered.session],
        by rwa [gathered.session]⟩
    rw [← gathered.session]
    exact cannotWrite_of_runLine parsed' legible hrun

/-- A line of one stage ends well if its stage does and the output can be delivered. -/
theorem runLine_of_deliver {line : Text} {stage : Stage} {s₁ : State}
    (parsed : env.config.parse line = .ok [stage])
    (h : runStage env 1 1 stage none (s.logged .info (lineRecord line)) = .ok output s₁)
    (delivered : deliver output (stage.redirection.map s.session.sink) s₁ = .ok () s') :
    runLine env line s = .ok () s' := by
  have hlast : runLast env 1 1 stage none (s.logged .info (lineRecord line)) = .ok () s' :=
    (Shell.bind_of_ok h).trans delivered
  rw [runLine_of_parse_eq_ok parsed, execute, List.length_singleton, runStages_singleton, hlast]

/-- An output is delivered to a file that can be written. -/
theorem deliver_of_write {sink : Sink} {tree : Tree}
    (allowed : s.volume.interference.refusal .write sink.path = none)
    (h : s.volume.tree.write sink.path (sink.mode.delivered output) sink.mode = .ok tree) :
    deliver output (some sink) s = .ok () { s with volume := s.volume.withTree tree } := by
  have hwrite : s.volume.write sink.path (sink.mode.delivered output) sink.mode =
      (.ok (), s.volume.withTree tree) := by
    rw [Volume.write, Volume.unlessRefused, allowed]
    simp only [h]
    rfl
  rw [deliver, Shell.bind_of_ok (Shell.attempt_of_eq hwrite)]
  rfl

/-- Two files, of which the second is read twice, gathered into this one by way of a link: it had
one letter without a newline. The result is then passed on to the other file. -/
theorem gathered_round_trip_link :
    let line : Text := "cat *.t a a > l".toList
    let line' : Text := "cat l > b.t".toList
    let tree := ((Tree.empty.set [['a']] (.file (Text.bytes ['x']))).set [['b', '.', 't']]
      (.file (Text.bytes ['y', '\n']))).set [['l']] (.link ['a'])
    ∃ s' s'', runLine .plain line (.atRoot tree) = .ok () s' ∧
      runLine .plain line' s' = .ok () s'' ∧
      s'.volume.tree.readText ⟨['/', 'l']⟩ = .ok ['y', '\n', 'x', 'x'] ∧
      s''.volume.tree.readText ⟨['/', 'b', '.', 't']⟩ = .ok ['y', '\n', 'x', 'x'] := by
  intro line line' tree
  have quiet (t : Tree) (p : Path) : (Volume.ofTree t).QuietAt p :=
    .inl (Volume.hidesStages_of_log_eq_none rfl)
  have legible {t : Tree} {p : Path} {text : Text} (h : t.contents? p = some text.bytes) :
      (Volume.ofTree t).Legible p text :=
    ⟨fun _ => rfl, Tree.readText_iff_contents?.2 h, quiet t p⟩
  -- the first line
  have htexts : fileTexts (.ofTree tree) [⟨['/', 'b', '.', 't']⟩, ⟨['/', 'a']⟩, ⟨['/', 'a']⟩] =
      .ok ['y', '\n', 'x', 'x'] :=
    fileTexts_eq_ok.2 ⟨[['y', '\n'], ['x'], ['x']],
      .cons (fileText_of_legible (legible rfl)) (.cons (fileText_of_legible (legible rfl))
        (.cons (fileText_of_legible (legible rfl)) .nil)), rfl⟩
  let operands : List Operand :=
    [.path ['*', '.', 't'] .wildcard, .path ['a'] .single, .path ['a'] .single]
  let stage : Stage := ⟨.cat, ⟨[], operands⟩, some ⟨.truncate, ['l']⟩⟩
  have parsed : Environment.plain.config.parse line = .ok [stage] := rfl
  let begun : State := (State.atRoot tree).logged .info (lineRecord line)
  have hbind : begun.session.bind begun.volume (Environment.plain.config.matchScope Command.cat.name)
      Command.cat.name Command.cat.signature ⟨[], operands⟩ none =
        .ok ⟨[], [.matched [⟨['/', 'b', '.', 't']⟩], .path ⟨['/', 'a']⟩, .path ⟨['/', 'a']⟩],
          none⟩ := by
    decide +kernel
  have hstage : runStage .plain 1 1 stage none begun =
      .ok ['y', '\n', 'x', 'x'] (begun.logged .info (stageRecord 1 1 .cat)) := by
    rw [runStage_cat (bindStage_of_bind hbind) (List.cons_ne_nil _ _)]
    exact congrArg (fun texts => Shell.ofExcept (texts.mapError .execution) _) htexts
  let gathered : Tree := tree.set [['a']] (.file (Text.bytes ['y', '\n', 'x', 'x']))
  let s' : State := { begun.logged .info (stageRecord 1 1 .cat) with volume := .ofTree gathered }
  have hwrite : tree.write ⟨['/', 'l']⟩ ['y', '\n', 'x', 'x'] .truncate = .ok gathered := rfl
  have hdeliver : deliver ['y', '\n', 'x', 'x'] (some ⟨.truncate, ⟨['/', 'l']⟩⟩)
      (begun.logged .info (stageRecord 1 1 .cat)) = .ok () s' := deliver_of_write rfl hwrite
  have run : runLine .plain line (.atRoot tree) = .ok () s' :=
    runLine_of_deliver parsed hstage hdeliver
  -- the second line
  let stage' : Stage :=
    { Stage.reading .cat ['l'] with redirection := some ⟨.truncate, ['b', '.', 't']⟩ }
  have parsed' : Environment.plain.config.parse line' = .ok [stage'] := rfl
  let begun' : State := s'.logged .info (lineRecord line')
  have hread : (Volume.ofTree gathered).Legible ⟨['/', 'l']⟩ ['y', '\n', 'x', 'x'] := legible rfl
  have hstage' : runStage .plain 1 1 stage' none begun' =
      .ok ['y', '\n', 'x', 'x'] (begun'.logged .info (stageRecord 1 1 .cat)) :=
    runStage_reading_cat hread 1 1 _
  let passed : Tree := gathered.set [['b', '.', 't']] (.file (Text.bytes ['y', '\n', 'x', 'x']))
  have hwrite' : gathered.write ⟨['/', 'b', '.', 't']⟩ ['y', '\n', 'x', 'x'] .truncate =
      .ok passed := rfl
  let s'' : State := { begun'.logged .info (stageRecord 1 1 .cat) with volume := .ofTree passed }
  have hdeliver' : deliver ['y', '\n', 'x', 'x'] (some ⟨.truncate, ⟨['/', 'b', '.', 't']⟩⟩)
      (begun'.logged .info (stageRecord 1 1 .cat)) = .ok () s'' := deliver_of_write rfl hwrite'
  have run' : runLine .plain line' s' = .ok () s'' := runLine_of_deliver parsed' hstage' hdeliver'
  -- both together
  have hquiet : ∀ p ∈ pathsRead .plain line ⟨[], operands⟩ (.atRoot tree),
      (State.atRoot tree).volume.QuietAt p := fun p _ => quiet tree p
  obtain ⟨-, h⟩ := gathered_round_trip .plain parsed (List.cons_ne_nil _ _) hquiet run
  obtain ⟨-, htext, -⟩ :=
    (h .plain line' ['b', '.', 't'] parsed' (fun _ => rfl) (quiet tree _)).1 s'' run'
  exact ⟨s', s'', run, run', hread.reads, htext.trans hread.reads⟩

end

end FileShell
