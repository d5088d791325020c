import FileShell.Proofs.Command.Binding
import FileShell.Proofs.Shell.Redirection

/-! # Listings

A directory can be listed by its name, as the working directory, or as one of the matches of a
wildcard. The lines of its entries are the same each time, two blanks further in for a wildcard.
From these lines the entries can be told again, as long as no name has a newline.

* **`shownEntries`** — the entries that a listing shows.
* **`shownEntries_joined`** — no entry is lost, and none is told wrongly.
* **`listings_agree`** — the ways of listing a directory compared. -/

namespace FileShell

variable {v : Volume} {directory : Path} {names : List Text} {n : Text}

/-! ## Lines and entries -/

/-- **The entry that a line of a listing shows**: its name, and whether it is that of a
directory. -/
def shownEntry (line : Text) : Text × Bool :=
  if line.getLast? = some '/' then (line.dropLast, true) else (line, false)

/-- **The entries that a listing shows.** Without any text there is no line. -/
def shownEntries (output : Text) : List (Text × Bool) :=
  if output = [] then [] else (output.pieces '\n').map shownEntry

/-- Blanks before a line are all that an indentation adds. -/
theorem entryLine_indent (indent : Text) :
    entryLine v directory indent n = indent ++ entryLine v directory [] n := by
  simp [entryLine]

/-- **The line of an entry shows the entry.** -/
theorem shownEntry_entryLine (h : '/' ∉ n) :
    shownEntry (entryLine v directory [] n) =
      (n, decide (v.stat (directory.child n) = .directory)) := by
  rw [entryLine, List.nil_append, shownEntry]
  by_cases hstat : v.stat (directory.child n) = .directory
  · simp [hstat]
  · have hlast : n.getLast? ≠ some '/' := fun hlast => h (List.mem_of_getLast? hlast)
    simp [hstat, hlast]

/-- The line of an entry has no newline if the name has none, and it is not empty if the name is
not. -/
theorem entryLine_plain (legal : IsName n ∧ '\n' ∉ n) :
    '\n' ∉ entryLine v directory [] n ∧ entryLine v directory [] n ≠ [] := by
  have hne : n ≠ [] := legal.1.1
  rw [entryLine]
  split <;> simp [legal.2, hne]

/-- **The entries of a directory can be told from the lines of its listing**, in order. -/
theorem shownEntries_joined (legal : ∀ n ∈ names, IsName n ∧ '\n' ∉ n) :
    shownEntries (Text.joined ['\n'] (names.map (entryLine v directory []))) =
      names.map fun n => (n, decide (v.stat (directory.child n) = .directory)) := by
  -- an empty output shows no line, not an empty one
  by_cases hne : names = []
  · subst hne
    rfl
  · have hpieces : (Text.joined ['\n'] (names.map (entryLine v directory []))).pieces '\n' =
        names.map (entryLine v directory []) := by
      refine List.splitOn_intercalate '\n' (fun line hline => ?_) (by simpa using hne)
      obtain ⟨n, hn, rfl⟩ := List.mem_map.1 hline
      exact (entryLine_plain (legal n hn)).1
    have houtput : Text.joined ['\n'] (names.map (entryLine v directory [])) ≠ [] := by
      intro hempty
      rw [hempty] at hpieces
      have hmem : [] ∈ names.map (entryLine v directory []) := by
        rw [← hpieces]
        exact List.mem_singleton_self _
      obtain ⟨n, hn, hline⟩ := List.mem_map.1 hmem
      exact (entryLine_plain (legal n hn)).2 hline
    rw [shownEntries, if_neg houtput, hpieces, List.map_map]
    exact List.map_congr_left fun n hn => shownEntry_entryLine (legal n hn).1.2.2.2

/-! ## Blocks -/

/-- A directory shows its names unless that is refused. -/
theorem Volume.exists_names (there : v.stat directory = .directory)
    (allowed : v.interference.refusal .list directory = none) :
    ∃ names, v.names directory = .ok names := by
  obtain ⟨l, hlocate, stands⟩ := Volume.exists_of_stat_eq_directory there
  have htree : v.tree.names directory = .ok (v.tree.namesBelow l) := by
    rw [Tree.names, hlocate, Outcome.ok_bind, Tree.enter, stands]
    rfl
  rw [Volume.names, Volume.unlessRefused, allowed]
  cases v.interference.listing directory with
  | none => exact ⟨_, htree⟩
  | some names => exact ⟨names, rfl⟩

/-- The lines of a directory that shows its names. -/
theorem entryLines_of_names (h : v.names directory = .ok names) (indent : Text) :
    entryLines v directory indent = .ok (names.map (entryLine v directory indent)) := by
  rw [entryLines, h]

/-- The lines of one match: that of its name, and those of its entries if it is a directory. -/
def matchBlock (v : Volume) (path : Path) : Except ExecutionError (List Text) :=
  if v.stat path = .directory then
    ((path.listedName ++ ['/', ':']) :: ·) <$> entryLines v path matchIndent
  else .ok [path.listedName]

/-- The matches have their lines one after the other. -/
theorem matchLines_cons (v : Volume) (path : Path) (rest : List Path) :
    matchLines v (path :: rest) = (do
      let block ← matchBlock v path
      let others ← matchLines v rest
      return block ++ others) := by
  rw [matchLines, matchBlock]
  split <;> rfl

/-- The lines of a directory among the matches. -/
theorem matchBlock_of_names (there : v.stat directory = .directory)
    (h : v.names directory = .ok names) :
    matchBlock v directory = .ok ((directory.listedName ++ ['/', ':']) ::
      (names.map (entryLine v directory [])).map (matchIndent ++ ·)) := by
  have hlines : names.map (entryLine v directory matchIndent) =
      (names.map (entryLine v directory [])).map (matchIndent ++ ·) := by
    rw [List.map_map]
    exact List.map_congr_left fun n _ => entryLine_indent matchIndent
  rw [matchBlock, if_pos there, entryLines_of_names h, hlines]
  rfl

/-- **Every match of a wildcard has its lines** if no look is refused. -/
theorem exists_matchLines (allowed : ∀ p, v.interference.refusal .list p = none)
    (paths : List Path) : ∃ lines, matchLines v paths = .ok lines := by
  induction paths with
  | nil => exact ⟨[], rfl⟩
  | cons path rest ih =>
    obtain ⟨others, hothers⟩ := ih
    rw [matchLines_cons, hothers]
    by_cases hstat : v.stat path = .directory
    · obtain ⟨names, hnames⟩ := Volume.exists_names hstat (allowed path)
      rw [matchBlock_of_names hstat hnames]
      exact ⟨_, rfl⟩
    · rw [matchBlock, if_neg hstat]
      exact ⟨_, rfl⟩

/-- **The lines of a directory stand under its own**, behind those of the matches before it and
before those of the matches behind it. -/
theorem matchLines_append_cons {before after : List Path} {front back : List Text}
    (hbefore : matchLines v before = .ok front) (hafter : matchLines v after = .ok back)
    (there : v.stat directory = .directory) (h : v.names directory = .ok names) :
    matchLines v (before ++ directory :: after) =
      .ok (front ++ (directory.listedName ++ ['/', ':']) ::
        (names.map (entryLine v directory [])).map (matchIndent ++ ·) ++ back) := by
  induction before generalizing front with
  | nil =>
    cases hbefore
    rw [List.nil_append, matchLines_cons, matchBlock_of_names there h, hafter]
    rfl
  | cons path before ih =>
    rw [matchLines_cons] at hbefore
    obtain ⟨block, hblock, hbefore⟩ := Outcome.bind_eq_ok.1 hbefore
    obtain ⟨others, hothers, hbefore⟩ := Outcome.bind_eq_ok.1 hbefore
    cases hbefore
    rw [List.cons_append, matchLines_cons, hblock, Outcome.ok_bind, ih hothers, Outcome.ok_bind]
    simp

/-! ## Stages -/

section

variable {env : Environment} {arguments : Arguments} {total number : Nat} {piped : Option Text}
  {target : Option Redirection} {s : State} {lines : List Text}

/-- The state in which a stage lists. -/
def State.listing (s : State) (total number : Nat) : State :=
  s.logged .info (stageRecord number total .ls)

/-- A stage that lists puts out the lines of its call. -/
theorem runStage_ls {call : Call}
    (bound : bindStage env ⟨.ls, arguments, target⟩ piped s = .ok call s)
    (h : listLines (s.listing total number).volume s.session.cwd call = .ok lines) :
    runStage env total number ⟨.ls, arguments, target⟩ piped s =
      .ok (Text.joined ['\n'] lines) (s.listing total number) := by
  rw [runStage_of_bindStage bound]
  change list call (s.listing total number) = _
  rw [list]
  have hlines : listLines (s.listing total number).volume (s.listing total number).session.cwd call =
      .ok lines := h
  rw [hlines]

/-- **A directory listed by a word** that names it. -/
theorem runStage_ls_single {word : Text}
    (there : s.volume.stat (s.session.resolve word) = .directory)
    (h : (s.listing total number).volume.names (s.session.resolve word) = .ok names) :
    runStage env total number ⟨.ls, ⟨[], [.path word .single]⟩, target⟩ piped s =
      .ok (Text.joined ['\n'] (names.map
        (entryLine (s.listing total number).volume (s.session.resolve word) [])))
        (s.listing total number) := by
  have hbound : bindStage env ⟨.ls, ⟨[], [.path word .single]⟩, target⟩ piped s =
      .ok ⟨[], [.path (s.session.resolve word)], piped⟩ s := bindStage_of_bind rfl
  have there' : (s.listing total number).volume.stat (s.session.resolve word) = .directory :=
    (Volume.stat_logged_eq_directory _ _ _).2 there
  refine runStage_ls hbound ?_
  change pathLines _ _ = _
  rw [pathLines, there']
  exact entryLines_of_names h []

/-- **The working directory listed** without a word. -/
theorem runStage_ls_bare (h : (s.listing total number).volume.names s.session.cwd = .ok names) :
    runStage env total number ⟨.ls, ⟨[], []⟩, target⟩ piped s =
      .ok (Text.joined ['\n'] (names.map
        (entryLine (s.listing total number).volume s.session.cwd [])))
        (s.listing total number) := by
  have hbound : bindStage env ⟨.ls, ⟨[], []⟩, target⟩ piped s = .ok ⟨[], [], piped⟩ s :=
    bindStage_of_bind rfl
  exact runStage_ls hbound (entryLines_of_names h [])

/-- **The matches of a wildcard listed.** -/
theorem runStage_ls_wildcard {word : Text} {paths : List Path}
    (found : s.session.expand s.volume (env.config.matchScope Command.ls.name) word = .ok paths)
    (h : matchLines (s.listing total number).volume paths = .ok lines) :
    runStage env total number ⟨.ls, ⟨[], [.path word .wildcard]⟩, target⟩ piped s =
      .ok (Text.joined ['\n'] lines) (s.listing total number) := by
  have hbind : s.session.bind s.volume (env.config.matchScope Command.ls.name) Command.ls.name
      Command.ls.signature ⟨[], [.path word .wildcard]⟩ piped = .ok ⟨[], [.matched paths], piped⟩ := by
    rw [Session.bind, Session.bindOperands, Session.bindOperand, found]
    rfl
  have hbound : bindStage env ⟨.ls, ⟨[], [.path word .wildcard]⟩, target⟩ piped s =
      .ok ⟨[], [.matched paths], piped⟩ s := bindStage_of_bind hbind
  exact runStage_ls hbound h

/-- **The ways of listing a directory agree.** Where no operation is refused, a directory shows its
names, and these make its lines. The lines are what is put out for a word that names the directory
and, if it is the working directory, without a word; and where a wildcard matches the directory, they
stand under its own line, two blanks further in, wherever it is among the matches. If no name has a
newline, what is put out for the directory shows exactly its names again, each with what it is. -/
theorem listings_agree (env : Environment) (s : State) (total number : Nat) (directory : Path)
    (allowed : ∀ o p, s.volume.interference.refusal o p = none)
    (there : s.volume.stat directory = .directory) :
    ∃ names lines, (s.listing total number).volume.names directory = .ok names ∧
      lines = names.map (entryLine (s.listing total number).volume directory []) ∧
      (∀ word piped target, s.session.resolve word = directory →
        runStage env total number ⟨.ls, ⟨[], [.path word .single]⟩, target⟩ piped s =
          .ok (Text.joined ['\n'] lines) (s.listing total number)) ∧
      (∀ piped target, s.session.cwd = directory →
        runStage env total number ⟨.ls, ⟨[], []⟩, target⟩ piped s =
          .ok (Text.joined ['\n'] lines) (s.listing total number)) ∧
      (∀ word piped target before after,
        s.session.expand s.volume (env.config.matchScope Command.ls.name) word =
          .ok (before ++ directory :: after) →
        ∃ front back, matchLines (s.listing total number).volume before = .ok front ∧
          matchLines (s.listing total number).volume after = .ok back ∧
          runStage env total number ⟨.ls, ⟨[], [.path word .wildcard]⟩, target⟩ piped s =
            .ok (Text.joined ['\n'] (front ++ (directory.listedName ++ ['/', ':']) ::
              lines.map (matchIndent ++ ·) ++ back)) (s.listing total number)) ∧
      ((∀ n ∈ names, IsName n ∧ '\n' ∉ n) →
        shownEntries (Text.joined ['\n'] lines) = names.map fun n =>
          (n, decide ((s.listing total number).volume.stat (directory.child n) = .directory))) := by
  have allowed' (p : Path) : (s.listing total number).volume.interference.refusal .list p = none := by
    rw [State.listing, State.logged, Volume.interference_logged, allowed]
  have there' : (s.listing total number).volume.stat directory = .directory :=
    (Volume.stat_logged_eq_directory _ _ _).2 there
  obtain ⟨names, hnames⟩ := Volume.exists_names there' (allowed' directory)
  refine ⟨names, _, hnames, rfl, fun word piped target hword => ?_, fun piped target hcwd => ?_,
    fun word piped target before after found => ?_, shownEntries_joined⟩
  · subst hword
    exact runStage_ls_single there hnames
  · subst hcwd
    exact runStage_ls_bare hnames
  · obtain ⟨front, hfront⟩ := exists_matchLines allowed' before
    obtain ⟨back, hback⟩ := exists_matchLines allowed' after
    exact ⟨front, back, hfront, hback,
      runStage_ls_wildcard found (matchLines_append_cons hfront hback there' hnames)⟩

/-- A directory with a file and a link to a directory, listed by its name and by a wildcard. -/
theorem listings_agree_link :
    let s : State := .atRoot (((Tree.empty.set [['d', '.', 'x']] .directory).set
      [['d', '.', 'x'], ['a']] (.file .empty)).set [['d', '.', 'x'], ['l']] (.link ['/']))
    runStage .plain 1 1 ⟨.ls, ⟨[], [.path ['d', '.', 'x'] .single]⟩, none⟩ none s =
        .ok "a\nl/".toList (s.listing 1 1) ∧
      runStage .plain 1 1 ⟨.ls, ⟨[], [.path ['*', '.', 'x'] .wildcard]⟩, none⟩ none s =
        .ok "d.x/:\n  a\n  l/".toList (s.listing 1 1) ∧
      shownEntries "a\nl/".toList = [(['a'], false), (['l'], true)] := by
  intro s
  have there : s.volume.stat ⟨['/', 'd', '.', 'x']⟩ = .directory := by decide +kernel
  obtain ⟨names, lines, hnames, hlines, single, -, wildcard, shown⟩ :=
    listings_agree .plain s 1 1 ⟨['/', 'd', '.', 'x']⟩ (fun _ _ => rfl) there
  have hnames' : (s.listing 1 1).volume.names ⟨['/', 'd', '.', 'x']⟩ = .ok [['a'], ['l']] := by
    decide +kernel
  obtain rfl : names = [['a'], ['l']] := Except.ok.inj (hnames.symm.trans hnames')
  obtain rfl : lines = [['a'], ['l', '/']] := hlines.trans (by decide +kernel)
  have found : s.session.expand s.volume (Environment.plain.config.matchScope Command.ls.name)
      ['*', '.', 'x'] = .ok ([] ++ ⟨['/', 'd', '.', 'x']⟩ :: []) := by decide +kernel
  obtain ⟨front, back, hfront, hback, wildcard⟩ := wildcard _ none none [] [] found
  cases hfront
  cases hback
  refine ⟨single _ none none (by decide +kernel), wildcard, (shown (by decide +kernel)).trans ?_⟩
  decide +kernel

end

end FileShell
