import FileShell.Proofs.Pager.Forward
import FileShell.Proofs.Shell.Browsing
import FileShell.Proofs.Text.Lines

/-! # Typing a file and browsing it

The command that types lines into a file is the encoder of these lines, and the pager is their
decoder. The one puts a newline behind each line that comes before the stop word, the other cuts the
text at its newlines again and shows a line for every key. So the lines that were typed come back,
as long as a text can tell them apart.

* **`typedText_append`** — lines that are typed before anything else.
* **`runLine_typedInto`**, **`runLine_shows`** — the one command, and the other.
* **`typed_lines_come_back`** — the two of them one after the other. -/

namespace FileShell

/-! ## Typing -/

/-- **Typing comes to an end** with the stop word, which is read, or with the input. What is left of
the first list is the second. -/
inductive EndsTyping (stopWord : Text) : List Input → List Input → Prop
  /-- The stop word is typed. -/
  | stopped (later : List Input) : EndsTyping stopWord (.line stopWord :: later) later
  /-- There is nothing left to read. -/
  | exhausted : EndsTyping stopWord [] []

/-- The input of lines that are typed. -/
def typedLines (typed : List Text) : List Input := typed.map .line

@[simp] theorem typedLines_cons (t : Text) (ts : List Text) :
    typedLines (t :: ts) = .line t :: typedLines ts := rfl

/-- **Lines other than the stop word are taken one by one**, each with a newline, and each after a
prompt. -/
theorem typedText_append {stopWord : Text} {typed : List Text} (going : stopWord ∉ typed)
    (events : List Event) (rest : List Input) :
    typedText stopWord events (typedLines typed ++ rest) =
      let last := typedText stopWord (events ++ typed.map fun _ => .prompt []) rest
      ((Text.ofLines typed ++ ·) <$> last.1, last.2) := by
  induction typed generalizing events with
  | nil =>
    rcases hlast : typedText stopWord events rest with ⟨_ | _, _⟩ <;>
      simp [typedLines, hlast]
  | cons t ts ih =>
    rw [List.mem_cons, not_or] at going
    have hmore := ih going.2 (events ++ [.prompt []])
    rw [typedLines_cons, List.cons_append, typedText, if_neg (Ne.symm going.1)]
    -- what is typed behind the first line is found behind its prompt
    simp only [List.append_assoc, List.singleton_append] at hmore
    simp only [List.map_cons, hmore]
    rcases (typedText stopWord (events ++ .prompt [] :: ts.map fun _ => .prompt []) rest).1 with
      _ | _ <;> simp

theorem typedText_of_ends {stopWord : Text} {rest later : List Input}
    (ends : EndsTyping stopWord rest later) (events : List Event) :
    typedText stopWord events rest = (.ok [], ⟨later, events ++ [.prompt []]⟩) := by
  cases ends with
  | stopped later => simp [typedText]
  | exhausted => rfl

/-- What is typed is read behind the notice. -/
theorem readTyped_eq (stopWord : Text) (s : State) :
    readTyped stopWord s =
      match typedText stopWord (s.console.events ++ [.write (typingNotice stopWord)])
        s.console.unread with
      | (.ok text, console) => .ok text { s with console }
      | (.error reason, console) =>
        .error (.execution (.cannotRead "cat".toList reason)) { s with console } := by
  have htalk (outcome : Except Text Text × Console)
      (h : typedText stopWord (s.console.events ++ [.write (typingNotice stopWord)])
        s.console.unread = outcome) :
      Shell.converse (fun c => typedText stopWord c.events c.unread)
        { s with console := s.console.write (typingNotice stopWord) } =
          .ok outcome.1 { s with console := outcome.2 } := by
    rw [← h]
    rfl
  rw [readTyped, Shell.bind_of_ok (Shell.write_apply _ s), Shell.bind_of_ok (htalk _ rfl)]
  rcases typedText stopWord _ s.console.unread with ⟨_ | _, console⟩ <;> rfl

section

variable {stopWord : Text} {typed : List Text} {rest : List Input} {s : State}

/-- **Lines that are typed up to an end** are read as their text. -/
theorem readTyped_of_ends {later : List Input} (going : stopWord ∉ typed)
    (unread : s.console.unread = typedLines typed ++ rest)
    (ends : EndsTyping stopWord rest later) :
    ∃ events, readTyped stopWord s =
      .ok (Text.ofLines typed) { s with console := ⟨later, events⟩ } := by
  rw [readTyped_eq, unread, typedText_append going, typedText_of_ends ends]
  simp only [Outcome.map_ok, List.append_nil]
  exact ⟨_, rfl⟩

/-- **A failure to read a line** before the end is the failure of the whole. -/
theorem readTyped_of_failure {reason : Text} {later : List Input} (going : stopWord ∉ typed)
    (unread : s.console.unread = typedLines typed ++ .failure reason :: later) :
    ∃ events, readTyped stopWord s =
      .error (.execution (.cannotRead "cat".toList reason))
        { s with console := ⟨later, events⟩ } := by
  rw [readTyped_eq, unread, typedText_append going, typedText]
  exact ⟨_, rfl⟩

end

/-! ## Browsing forward -/

/-- **Lines were shown** to the end, by keys that lead forward: besides prompts these lines alone,
in order. Nothing was changed, and what is left to be read begins with the keys that were not
needed. -/
structure Shows (lines : List Text) (keys : List Key) (rest : List Input) (s s' : State) :
    Prop where
  session : s'.session = s.session
  files : s.volume.Untouched s'.volume
  unread : ∃ unused, unused <:+ keys ∧ s'.console.unread = typedKeys unused ++ rest
  shown : ∃ since, s'.console.events = s.console.events ++ since ∧
    shownBesides since = lines.map .write

variable {env : Environment} {line word text : Text} {s : State}

/-- **A file is paged through to its end.** -/
theorem runLine_shows {keys : List Key} {rest : List Input}
    (parsed : env.config.parse line = .ok [.reading .more word])
    (allowed : s.volume.interference.refusal .readLines (s.session.resolve word) = none)
    (elsewhere : s.volume.LogElsewhere (s.session.resolve word))
    (reads : s.volume.tree.readText (s.session.resolve word) = .ok text)
    (forward : ∀ key ∈ keys, key.LeadsForward)
    (done : (Visit.after text.lines env.config.settings.pageSize keys).pager.isDone = true)
    (unread : s.console.unread = typedKeys keys ++ rest) :
    ∃ s', runLine env line s = .ok () s' ∧ Shows text.lines keys rest s s' := by
  obtain ⟨unused, since, hsuffix, hshow, hshown⟩ :=
    Pager.show_forward forward done s.console.events rest
  have hconsole : s.console = ⟨typedKeys keys ++ rest, s.console.events⟩ := by rw [← unread]
  rw [← hconsole] at hshow
  -- the console is as it was when the pager begins, and the file still holds its text
  let begun := (s.logged .info (lineRecord line)).logged .info (stageRecord 1 1 .more)
  have hpaged : paged env.config.settings.pageSize text.lines begun =
      .ok () { begun with console := ⟨typedKeys unused ++ rest, s.console.events ++ since⟩ } :=
    paged_of_show hshow
  have hreads : begun.volume.tree.readText (s.session.resolve word) = .ok text :=
    Volume.readText_logged (elsewhere.logged _) _ (Volume.readText_logged elsewhere _ reads)
  have hexecute : execute env [.reading .more word] (s.logged .info (lineRecord line)) =
      paged env.config.settings.pageSize text.lines begun :=
    execute_reading_more (by rwa [State.logged, Volume.interference_logged]) hreads
  refine ⟨{ begun with console := ⟨typedKeys unused ++ rest, s.console.events ++ since⟩ },
    ?_, rfl, ?_, ⟨unused, hsuffix, rfl⟩, since, rfl, hshown⟩
  · rw [runLine_of_parse_eq_ok parsed, hexecute, hpaged]
  · exact ((Volume.Untouched.refl s.volume).logged _).logged _

/-! ## Typing into a file -/

/-- **Typed lines have gone to a file**, and all input up to their end was read. -/
structure TypedInto (p : Path) (typed : List Text) (later : List Input) (s s' : State) : Prop where
  session : s'.session = s.session
  interference : s'.volume.interference = s.volume.interference
  contents : s'.volume.tree.contents? p = some (Text.ofLines typed).bytes
  elsewhere : s'.volume.LogElsewhere p
  unread : s'.console.unread = later

/-- What a stage without words types into a file is delivered there. -/
theorem execute_through (env : Environment) (r : Redirection) (s : State) :
    execute env [.through (some r)] s =
      (readTyped env.config.settings.stopWord >>= fun output =>
        deliver output (some (s.session.sink r))) (s.logged .info (stageRecord 1 1 .cat)) := rfl

section

variable {typed : List Text} {rest : List Input}
  (parsed : env.config.parse line = .ok [.through (some ⟨.truncate, word⟩)])
  (going : env.config.settings.stopWord ∉ typed)
include parsed going

/-- **Lines that are typed into a file** up to an end are there afterwards, unless the file cannot
be written, and then nothing is. -/
theorem runLine_typedInto {later : List Input}
    (elsewhere : s.volume.LogElsewhere (s.session.resolve word))
    (unread : s.console.unread = typedLines typed ++ rest)
    (ends : EndsTyping env.config.settings.stopWord rest later) :
    match runLine env line s with
    | .ok _ s₁ => TypedInto (s.session.resolve word) typed later s s₁
    | .error e s₁ => (∃ cause, e = .execution (.cannotWrite (s.session.resolve word) cause)) ∧
        s.volume.Untouched s₁.volume := by
  let begun := (s.logged .info (lineRecord line)).logged .info (stageRecord 1 1 .cat)
  obtain ⟨events, htyped⟩ := readTyped_of_ends (s := begun) going unread ends
  have hexecute : execute env [.through (some ⟨.truncate, word⟩)]
      (s.logged .info (lineRecord line)) =
        deliver (Text.ofLines typed) (some (s.session.sink ⟨.truncate, word⟩))
          { begun with console := ⟨later, events⟩ } := by
    rw [execute_through]
    exact Shell.bind_of_ok htyped
  have hdeliver := deliver_some (Text.ofLines typed) (s.session.sink ⟨.truncate, word⟩)
    { begun with console := ⟨later, events⟩ }
  have hbegun : s.volume.Untouched begun.volume :=
    ((Volume.Untouched.refl s.volume).logged _).logged _
  rw [runLine_of_parse_eq_ok parsed, hexecute]
  generalize deliver (Text.ofLines typed) (some (s.session.sink ⟨.truncate, word⟩))
    { begun with console := ⟨later, events⟩ } = result at hdeliver
  cases hdeliver with
  | @written l tree writes here there content elsewhere' =>
    refine ⟨rfl, hbegun.interference, content, fun m hm => ?_, rfl⟩
    -- the path leads to the place that it led to before
    cases there.symm.trans hm
    exact ((elsewhere.logged _).logged _ l here).withTree tree
  | refused fails =>
    exact ⟨⟨_, rfl⟩, hbegun.logged _⟩

/-- **If a line cannot be read before the end**, nothing is written at all. -/
theorem runLine_cannotRead {reason : Text} {later : List Input}
    (unread : s.console.unread = typedLines typed ++ .failure reason :: later) :
    ∃ s₁, runLine env line s = .error (.execution (.cannotRead "cat".toList reason)) s₁ ∧
      s.volume.Untouched s₁.volume ∧ s₁.console.unread = later := by
  let begun := (s.logged .info (lineRecord line)).logged .info (stageRecord 1 1 .cat)
  obtain ⟨events, htyped⟩ := readTyped_of_failure (s := begun) going unread
  have hexecute : execute env [.through (some ⟨.truncate, word⟩)]
      (s.logged .info (lineRecord line)) =
        .error (.execution (.cannotRead "cat".toList reason))
          { begun with console := ⟨later, events⟩ } := by
    rw [execute_through]
    exact Shell.bind_of_error htyped
  rw [runLine_of_parse_eq_ok parsed, hexecute]
  exact ⟨_, rfl, (((Volume.Untouched.refl s.volume).logged _).logged _).logged _, rfl⟩

end

/-- **Lines that are typed into a file come back line for line.** They are typed up to the stop word
or the end of the input; none of them is the stop word, holds a newline or ends in a carriage
return. If the run succeeds, the file holds these lines, each with a newline, and what is left to be
read is what stood behind them. Whoever pages through the file then, in any environment and at any
console, by keys that lead forward to its end, is shown these lines in order and besides prompts
nothing else. The run can only fail because the file cannot be written. If reading fails before the
end, so does the run. Either failure leaves the file as it was, and nothing has come or gone. -/
theorem typed_lines_come_back (env : Environment) {line word : Text} {s : State}
    {typed : List Text} {rest : List Input}
    (parsed : env.config.parse line = .ok [.through (some ⟨.truncate, word⟩)])
    (elsewhere : s.volume.LogElsewhere (s.session.resolve word))
    (plain : ∀ t ∈ typed, t.IsPlainLine) (going : env.config.settings.stopWord ∉ typed)
    (unread : s.console.unread = typedLines typed ++ rest) :
    (∀ later, EndsTyping env.config.settings.stopWord rest later →
      (∀ s₁, runLine env line s = .ok () s₁ →
        s₁.volume.tree.contents? (s.session.resolve word) = some (Text.ofLines typed).bytes ∧
          s₁.console.unread = later ∧ s₁.session = s.session ∧
          ∀ (env' : Environment) (line' : Text) (keys : List Key) (rest' : List Input) (s₂ : State),
            env'.config.parse line' = .ok [.reading .more word] →
            s₂.volume = s₁.volume → s₂.session = s₁.session →
            s.volume.interference.refusal .readLines (s.session.resolve word) = none →
            (∀ key ∈ keys, key.LeadsForward) →
            (Visit.after typed env'.config.settings.pageSize keys).pager.isDone = true →
            s₂.console.unread = typedKeys keys ++ rest' →
            ∃ s₃, runLine env' line' s₂ = .ok () s₃ ∧ Shows typed keys rest' s₂ s₃) ∧
      ∀ e s₁, runLine env line s = .error e s₁ →
        (∃ cause, e = .execution (.cannotWrite (s.session.resolve word) cause)) ∧
          s.volume.Untouched s₁.volume ∧
          s₁.volume.tree.contents? (s.session.resolve word) =
            s.volume.tree.contents? (s.session.resolve word)) ∧
      ∀ reason later, rest = .failure reason :: later →
        ∃ s₁, runLine env line s = .error (.execution (.cannotRead "cat".toList reason)) s₁ ∧
          s.volume.Untouched s₁.volume ∧ s₁.console.unread = later ∧
          s₁.volume.tree.contents? (s.session.resolve word) =
            s.volume.tree.contents? (s.session.resolve word) := by
  refine ⟨fun later ends => ⟨fun s₁ hrun => ?_, fun e s₁ hrun => ?_⟩, ?_⟩
  · have hend := runLine_typedInto parsed going elsewhere unread ends
    rw [hrun] at hend
    have into : TypedInto (s.session.resolve word) typed later s s₁ := hend
    refine ⟨into.contents, into.unread, into.session, ?_⟩
    intro env' line' keys rest' s₂ parsed' samevolume samesession allowed forward done unread'
    have hpath : s₂.session.resolve word = s.session.resolve word := by
      rw [samesession, into.session]
    have hreads : s₂.volume.tree.readText (s₂.session.resolve word) =
        .ok (Text.ofLines typed) := by
      rw [hpath, samevolume]
      exact Tree.readText_eq_ok.2 ⟨_, into.contents, textOfBytes?_bytes _⟩
    have hlines : (Text.ofLines typed).lines = typed := Text.lines_ofLines plain
    have hshows := runLine_shows parsed'
      (by rwa [hpath, samevolume, into.interference])
      (by rw [hpath, samevolume]; exact into.elsewhere) hreads forward
      (by rwa [hlines]) unread'
    rwa [hlines] at hshows
  · have hend := runLine_typedInto parsed going elsewhere unread ends
    rw [hrun] at hend
    obtain ⟨cause, untouched⟩ := hend
    exact ⟨cause, untouched, untouched.contents?_eq elsewhere⟩
  · rintro reason later rfl
    obtain ⟨s₁, hrun, untouched, hunread⟩ := runLine_cannotRead parsed going unread
    exact ⟨s₁, hrun, untouched, hunread, untouched.contents?_eq elsewhere⟩

/-- Lines typed up to the stop word, one of them empty, and pages of two lines. -/
theorem typed_lines_come_back_three :
    let env : Environment := { Environment.plain with config.settings.pageSize := 2 }
    let typed : List Text := [['a'], [], ['b', ' ']]
    let rest : List Input := .line "<stop>".toList :: typedKeys [.line, .page]
    let s : State := { State.atRoot .empty with console := ⟨typedLines typed ++ rest, []⟩ }
    env.config.parse "cat > f".toList = .ok [.through (some ⟨.truncate, ['f']⟩)] ∧
      env.config.parse "more f".toList = .ok [.reading .more ['f']] ∧
      s.volume.LogElsewhere (s.session.resolve ['f']) ∧ (∀ t ∈ typed, t.IsPlainLine) ∧
      env.config.settings.stopWord ∉ typed ∧ s.console.unread = typedLines typed ++ rest ∧
      ∃ s₁ s₂, runLine env "cat > f".toList s = .ok () s₁ ∧
        s₁.volume.tree.contents? ⟨"/f".toList⟩ = some (Text.bytes "a\n\nb \n".toList) ∧
        s₁.console.unread = typedKeys [.line, .page] ∧
        runLine env "more f".toList s₁ = .ok () s₂ ∧ Shows typed [.line, .page] [] s₁ s₂ := by
  intro env typed rest s
  have parsed : env.config.parse "cat > f".toList = .ok [.through (some ⟨.truncate, ['f']⟩)] := by
    rfl
  have parsed' : env.config.parse "more f".toList = .ok [.reading .more ['f']] := by rfl
  have elsewhere : s.volume.LogElsewhere (s.session.resolve ['f']) :=
    fun l _ => Volume.logApart_of_log_eq_none rfl l
  have plain : ∀ t ∈ typed, t.IsPlainLine := by decide
  have going : env.config.settings.stopWord ∉ typed := by decide
  have unread : s.console.unread = typedLines typed ++ rest := rfl
  obtain ⟨s₁, hexecute⟩ : ∃ s₁, execute env [.through (some ⟨.truncate, ['f']⟩)]
      (s.logged .info (lineRecord "cat > f".toList)) = .ok () s₁ := ⟨_, rfl⟩
  have hrun : runLine env "cat > f".toList s = .ok () s₁ := by
    rw [runLine_of_parse_eq_ok parsed, hexecute]
  have ends : EndsTyping env.config.settings.stopWord rest (typedKeys [.line, .page]) := .stopped _
  obtain ⟨hcontents, hunread, -, hmore⟩ :=
    ((typed_lines_come_back env parsed elsewhere plain going unread).1 _ ends).1 s₁ hrun
  obtain ⟨s₂, hshown, hshows⟩ := hmore env "more f".toList [.line, .page] [] s₁ parsed' rfl rfl rfl
    (by decide) (by decide) hunread
  exact ⟨parsed, parsed', elsewhere, plain, going, unread, s₁, s₂, hrun, hcontents, hunread, hshown,
    hshows⟩

end FileShell
