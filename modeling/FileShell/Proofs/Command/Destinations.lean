import FileShell.Proofs.Command.Transferred
import FileShell.Proofs.Shell.Redirection

/-! # What copying and moving accept as a destination

Words are bound to sources and a destination in one place and copied in another. The one checks that
the destination is a directory or that a single file goes there, and the other relies on it: as long
as the directories and the links are the same, a run that finds no directory at the destination
copies at most one file, and to the destination itself (`bindStage_iff_accepts`).

* **`Volume.Accepts`** — the rule for destinations.
* **`CopiedOnce`** — what a run has come to that had one source to copy. -/

namespace FileShell

variable {session : Session} {v : Volume} {scope : MatchScope} {command : Command}
  {arguments : Arguments} {word : Text} {destination : Path}

/-! ## The rule -/

/-- **The rule for destinations**: a directory takes all sources. Anything else takes one source
that is no directory, unless the word for the destination has a slash at its end. -/
def Volume.Accepts (v : Volume) (word : Text) (destination : Path) (sources : List Path) : Prop :=
  v.stat destination = .directory ∨
    word.getLast? ≠ some '/' ∧ ∃ source, sources = [source] ∧ v.stat source ≠ .directory

/-- Sources need no directory to go to if there is one of them and it is none. -/
theorem needsDirectory_eq_false {sources : List Path} (nonempty : sources ≠ []) :
    Session.needsDirectory v sources = false ↔
      ∃ source, sources = [source] ∧ v.stat source ≠ .directory := by
  match sources with
  | [] => exact absurd rfl nonempty
  | [source] => simp [Session.needsDirectory]
  | first :: second :: rest => simp [Session.needsDirectory]

/-- **The check on destinations passes what the rule accepts.** -/
theorem checkDestination_eq_ok (name : Text) {sources : List Bound}
    (nonempty : sources.flatMap Bound.paths ≠ []) :
    Session.checkDestination v name word sources (.path destination) = .ok () ↔
      v.Accepts word destination (sources.flatMap Bound.paths) := by
  rw [Volume.Accepts, ← needsDirectory_eq_false nonempty]
  unfold Session.checkDestination
  simp only [Bound.paths_path, List.head?_cons, Option.any_some]
  by_cases hdirectory : v.stat destination = .directory
  · simp [hdirectory]
  · by_cases hslash : word.getLast? = some '/'
    · simp [hdirectory, hslash]
    · simp [hdirectory, hslash]

/-! ## Binding sources and a destination -/

/-- The operands of a command that copies or moves are words for sources, at least one, and a word
for a destination behind them. -/
theorem exists_sources_of_suits (suits : arguments.Suits Command.transferSignature) :
    ∃ init word, arguments.operands = init ++ [.path word .single] ∧ init ≠ [] ∧
      ∀ operand ∈ init, ∀ text, operand ≠ .literal text := by
  have hmin : 2 ≤ arguments.operands.length := suits.enough
  obtain ⟨init, last, hinit⟩ := (List.eq_nil_or_concat' arguments.operands).resolve_left <| by
    intro hnil
    rw [hnil] at hmin
    cases hmin
  have hsuits := suits.operands
  rw [hinit] at hmin hsuits
  simp only [List.length_append, List.length_singleton] at hmin hsuits
  -- the last position is that of the destination
  have hlast : last.Suits .single := by
    have hlast := hsuits init.length last (by simp)
    simpa [Signature.requirement, Command.transferSignature] using hlast
  obtain ⟨word, rfl⟩ : ∃ word, last = .path word .single := by
    rcases last with text | ⟨word, _ | _⟩
    · cases hlast
    · exact ⟨word, rfl⟩
    · cases hlast.2.2 rfl
  refine ⟨init, word, hinit, ?_, ?_⟩
  · rintro rfl
    simp at hmin
  · rintro operand hmem text rfl
    -- and any other one is that of a source, which no word is that is left as it is
    obtain ⟨i, hi, hget⟩ := List.mem_iff_getElem.1 hmem
    have hfirst := hsuits i (.literal text) <| by
      rw [List.getElem?_append_left hi, List.getElem?_eq_getElem hi, hget]
    have hne : i ≠ init.length := by omega
    simp [Operand.Suits, Signature.requirement, Command.transferSignature, hne] at hfirst

/-- A source is bound if it matches anything. -/
theorem exists_bound_of_source (name : Text) {operand : Operand}
    (expands : ∀ word, operand = .path word .wildcard →
      ∃ paths, session.expand v scope word = .ok paths) :
    ∃ b, session.bindOperand v scope name .singleOrWildcard operand = .ok b := by
  rcases operand with text | ⟨word, _ | _⟩
  · exact ⟨.literal text, rfl⟩
  · exact ⟨.path (session.resolve word), by simp [Session.bindOperand]⟩
  · obtain ⟨paths, hpaths⟩ := expands word rfl
    exact ⟨.matched paths, by simp [Session.bindOperand, hpaths]⟩

/-- So sources are bound, and the destination behind them is resolved. -/
theorem exists_bound_of_sources (name word : Text) {count index : Nat} {init : List Operand}
    (hcount : index + init.length + 1 = count)
    (expands : ∀ word, .path word .wildcard ∈ init →
      ∃ paths, session.expand v scope word = .ok paths) :
    ∃ sources, session.bindOperands v scope name Command.transferSignature count index
        (init ++ [.path word .single]) = .ok (sources ++ [.path (session.resolve word)]) := by
  induction init generalizing index with
  | nil =>
    have hlast : index + 1 = count := by simpa using hcount
    refine ⟨[], ?_⟩
    simp [Session.bindOperands, Session.bindOperand, Signature.requirement,
      Command.transferSignature, hlast]
  | cons operand init ih =>
    rw [List.length_cons] at hcount
    have hne : index + 1 ≠ count := by omega
    have hrest : index + 1 + init.length + 1 = count := by omega
    obtain ⟨b, hb⟩ := exists_bound_of_source name fun word heq =>
      expands word (heq ▸ List.mem_cons_self)
    obtain ⟨sources, hsources⟩ := ih hrest fun word hword =>
      expands word (List.mem_cons_of_mem _ hword)
    have hfirst : Command.transferSignature.requirement index count = .singleOrWildcard := by
      simp [Signature.requirement, Command.transferSignature, hne]
    refine ⟨b :: sources, ?_⟩
    rw [List.cons_append, Session.bindOperands, hfirst, hb]
    simp [hsources]

/-- Sources that match something stand for at least one path. -/
theorem pathsOf_ne_nil {init : List Operand} (nonempty : init ≠ [])
    (named : ∀ operand ∈ init, ∀ text, operand ≠ .literal text)
    (expands : ∀ word, .path word .wildcard ∈ init →
      ∃ paths, session.expand v scope word = .ok paths) :
    init.flatMap (session.pathsOf v scope) ≠ [] := by
  obtain ⟨first, rest, rfl⟩ := List.exists_cons_of_ne_nil nonempty
  suffices hfirst : session.pathsOf v scope first ≠ [] by simp [hfirst]
  rcases first with text | ⟨word, _ | _⟩
  · exact absurd rfl (named _ List.mem_cons_self text)
  · simp [Session.pathsOf]
  · obtain ⟨paths, hpaths⟩ := expands word List.mem_cons_self
    simpa [Session.pathsOf, hpaths] using (exists_name_of_expand hpaths).1

/-- **Words for sources and a destination are bound to a call if the rule accepts them**, and
otherwise they are refused as arguments. -/
theorem bind_transfer_cases (name : Text) (piped : Option Text) {init : List Operand}
    (hinit : arguments.operands = init ++ [.path word .single]) (nonempty : init ≠ [])
    (named : ∀ operand ∈ init, ∀ text, operand ≠ .literal text)
    (expands : ∀ word, .path word .wildcard ∈ init →
      ∃ paths, session.expand v scope word = .ok paths) :
    (v.Accepts word (session.resolve word) (init.flatMap (session.pathsOf v scope)) ∧
        ∃ call, session.bind v scope name Command.transferSignature arguments piped = .ok call ∧
          call.paths = init.flatMap (session.pathsOf v scope) ++ [session.resolve word]) ∨
      ¬v.Accepts word (session.resolve word) (init.flatMap (session.pathsOf v scope)) ∧
        ∃ cause, session.bind v scope name Command.transferSignature arguments piped =
          .error (.argument cause) := by
  have hcount : 0 + init.length + 1 = arguments.operands.length := by simp [hinit]
  obtain ⟨sources, hbound⟩ := exists_bound_of_sources name word hcount expands
  have hpaths : sources.flatMap Bound.paths = init.flatMap (session.pathsOf v scope) := by
    simpa [Session.pathsOf] using paths_of_bindOperands hbound
  -- the check is made on the last operand as the destination, and all others as its sources
  have hlayout : Session.checkLayout v name Command.transferSignature arguments.operands
      (sources ++ [.path (session.resolve word)]) =
        Session.checkDestination v name word sources (.path (session.resolve word)) := by
    rw [hinit]
    simp only [Session.checkLayout, Command.transferSignature, List.getLast?_concat,
      List.dropLast_concat, Operand.word]
  have hrule : Session.checkDestination v name word sources (.path (session.resolve word)) =
      .ok () ↔ v.Accepts word (session.resolve word) (sources.flatMap Bound.paths) :=
    checkDestination_eq_ok name (hpaths ▸ pathsOf_ne_nil nonempty named expands)
  rw [hpaths] at hrule
  rw [← hinit] at hbound
  simp only [← hrule, Session.bind, hbound, hlayout, Outcome.ok_bind]
  rcases Session.checkDestination v name word sources (.path (session.resolve word)) with
    cause | ⟨⟩
  · refine .inr ⟨fun h => ?_, cause, rfl⟩
    cases h
  · refine .inl ⟨rfl, _, rfl, ?_⟩
    simp [Call.paths, hpaths]

/-! ## Copying one file -/

/-- **What a run has come to that had one source to copy.** -/
inductive CopiedOnce (command : Command) (source destination : Path) (s : State) :
    EStateM.Result Failure State Text → Prop
  /-- The source was not copied, and nothing has changed. -/
  | refused (cause : ExecutionError) :
      CopiedOnce command source destination s (.error (.execution cause) s)
  /-- The source was copied once, which is recorded, and it is removed if it was to be moved. -/
  | copied {v : Volume} (text : Text)
      (copies : s.volume.copyFile source destination = (.ok (), v)) :
      CopiedOnce command source destination s
        ((do
          if command = Command.mv then removeEach command [source]
          return [] : Shell Text) ({ s with volume := v }.logged .info text))

/-- A source goes to the destination itself if that is no directory. -/
theorem targetOf_of_ne_directory {source : Path} (h : v.stat destination ≠ .directory) :
    v.targetOf destination source = destination := by
  unfold Volume.targetOf transferTarget
  split
  · rw [decide_eq_false h, if_neg nofun]
  · rfl

/-- **One source that is no directory is copied at most once**, and to the destination itself if
that is no directory. -/
theorem copiedOnce_of_transfer {call : Call} {source : Path} {s : State}
    (hpaths : call.paths = [source, destination]) (hsource : s.volume.stat source ≠ .directory)
    (hdestination : s.volume.stat destination ≠ .directory) :
    CopiedOnce command source destination s (transfer command call s) := by
  rw [transfer_eq (show call.paths = [source] ++ [destination] from hpaths)]
  rcases copyEach_cons command (s.volume.targetOf destination) source [] s with
    ⟨hstat, -⟩ | ⟨-, heq⟩ | ⟨-, heq⟩
  · exact absurd hstat hsource
  · rw [Shell.bind_of_error heq]
    exact .refused _
  · rw [targetOf_of_ne_directory hdestination] at heq
    rcases copyOne_cases command source destination s with
      ⟨-, hrefusal, tree, text, hcopy, hone⟩ | ⟨-, cause, hone⟩
    · rw [Shell.bind_of_ok hone] at heq
      rw [Shell.bind_of_ok heq]
      refine .copied text ?_
      rw [Volume.copyFile, Volume.unlessRefused, hrefusal, hcopy, Volume.afterChange_ok]
    · rw [Shell.bind_of_error hone] at heq
      rw [Shell.bind_of_error heq]
      exact .refused cause

/-! ## The rule at work -/

/-- **The destination of copying and moving.** Words for sources that all match something are bound
if and only if the rule accepts the destination. Otherwise they are refused as arguments and the
stage changes nothing. As long as the directories and links are the same, a run that finds no
directory at the destination had one source, and copies it at most once and to the destination
itself. -/
theorem bindStage_iff_accepts (env : Environment) {line : Text} {stages : List Stage}
    {stage : Stage} (parsed : env.config.parse line = .ok stages) (mem : stage ∈ stages)
    (transfers : stage.command = .cp ∨ stage.command = .mv) :
    ∃ init word, stage.arguments.operands = init ++ [.path word .single] ∧
      ∀ (piped : Option Text) (s : State),
        (∀ pattern, .path pattern .wildcard ∈ init → ∃ paths, s.session.expand s.volume
          (env.config.matchScope stage.command.name) pattern = .ok paths) →
        let destination := s.session.resolve word
        let sources := init.flatMap
          (s.session.pathsOf s.volume (env.config.matchScope stage.command.name))
        ((∃ call, bindStage env stage piped s = .ok call s) ↔
            s.volume.Accepts word destination sources) ∧
          (¬s.volume.Accepts word destination sources →
            ∃ cause, bindStage env stage piped s = .error (.argument cause) s ∧
              ∀ total number rest, runStages env total number piped (stage :: rest) s =
                .error (.argument cause) s) ∧
          ∀ call, bindStage env stage piped s = .ok call s →
            call.paths = sources ++ [destination] ∧
              ∀ s₁, Tree.SameWays s.volume.tree s₁.volume.tree →
                s₁.volume.interference = s.volume.interference →
                s₁.volume.stat destination ≠ .directory →
                ∃ source, sources = [source] ∧
                  CopiedOnce stage.command source destination s₁
                    (stage.command.run env call s₁) := by
  have suits : stage.arguments.Suits stage.command.signature :=
    ((wellRead_of_parse parsed).2.1 stage mem).arguments
  rw [signature_of_transfers transfers] at suits
  obtain ⟨init, word, hinit, nonempty, named⟩ := exists_sources_of_suits suits
  refine ⟨init, word, hinit, ?_⟩
  intro piped s expands destination sources
  have hbind : bindStage env stage piped s =
      Shell.ofExcept (s.session.bind s.volume (env.config.matchScope stage.command.name)
        stage.command.name Command.transferSignature stage.arguments piped) s := by
    rw [bindStage, signature_of_transfers transfers]
  rcases bind_transfer_cases stage.command.name piped hinit nonempty named expands with
    ⟨accepts, call, hcall, hpaths⟩ | ⟨refuses, cause, hcause⟩
  · rw [hcall] at hbind
    refine ⟨⟨fun _ => accepts, fun _ => ⟨call, hbind⟩⟩, fun h => absurd accepts h,
      fun call' hcall' => ?_⟩
    obtain rfl : call = call' := by
      rw [hbind] at hcall'
      cases hcall'
      rfl
    refine ⟨hpaths, fun s₁ same interference hfound => ?_⟩
    -- what is a directory now was one when the words were bound
    have hsame : ∀ p, s₁.volume.stat p = .directory ↔ s.volume.stat p = .directory := fun _ =>
      Volume.stat_eq_directory_congr same interference
    obtain ⟨-, source, hsource, hfile⟩ := accepts.resolve_left (mt (hsame _).2 hfound)
    have hrun : stage.command.run env call = transfer stage.command call := by
      rcases transfers with heq | heq <;> rw [heq] <;> rfl
    refine ⟨source, hsource, ?_⟩
    rw [hrun]
    refine copiedOnce_of_transfer ?_ (mt (hsame _).1 hfile) hfound
    rw [hpaths, hsource]
    rfl
  · rw [hcause] at hbind
    refine ⟨⟨fun h => ?_, fun h => absurd h refuses⟩, fun _ => ⟨cause, hbind, ?_⟩,
      fun call hcall => ?_⟩
    · obtain ⟨call, hcall⟩ := h
      rw [hbind] at hcall
      cases hcall
    · intro total number rest
      exact runStages_cons_eq_error.2 (.inl (Shell.bind_of_error hbind))
    · rw [hbind] at hcall
      cases hcall

/-- The only match of a wildcard is moved to where nothing stands. -/
theorem bindStage_iff_accepts_wildcard :
    let tree : Tree := ⟨[(["a.x".toList], .file (Text.bytes ['x']))]⟩
    let s := State.atRoot tree
    let stage : Stage :=
      ⟨.mv, ⟨[], [.path "*.x".toList .wildcard, .path ['b'] .single]⟩, none⟩
    ∃ call, bindStage .plain stage none s = .ok call s ∧
      CopiedOnce .mv ⟨"/a.x".toList⟩ ⟨"/b".toList⟩ s (Command.mv.run .plain call s) := by
  intro tree s stage
  have parsed : Environment.plain.config.parse "mv *.x b".toList = .ok [stage] := by rfl
  obtain ⟨init, word, hinit, hrule⟩ :=
    bindStage_iff_accepts .plain parsed List.mem_cons_self (.inr rfl)
  obtain ⟨rfl, hword⟩ : [.path "*.x".toList .wildcard] = init ∧
      [Operand.path ['b'] .single] = [.path word .single] := List.append_inj' hinit rfl
  cases hword
  have hdestination : s.session.resolve ['b'] = ⟨"/b".toList⟩ := by decide +kernel
  have hexpand : s.session.expand s.volume (Environment.plain.config.matchScope Command.mv.name)
      "*.x".toList = .ok [⟨"/a.x".toList⟩] := by rfl
  have hrule := hrule none s fun pattern hpattern => by
    cases List.mem_singleton.1 hpattern
    exact ⟨_, hexpand⟩
  simp only [stage, hdestination, List.flatMap_singleton, Session.pathsOf, hexpand] at hrule
  obtain ⟨hiff, -, hcalls⟩ := hrule
  have accepts : s.volume.Accepts ['b'] ⟨"/b".toList⟩ [⟨"/a.x".toList⟩] :=
    .inr ⟨by decide, _, rfl, by decide +kernel⟩
  obtain ⟨call, hcall⟩ := hiff.2 accepts
  obtain ⟨source, hsource, hcopied⟩ :=
    (hcalls call hcall).2 s (.refl _) rfl (by decide +kernel)
  cases hsource
  exact ⟨call, hcall, hcopied⟩

end FileShell
