import FileShell.Proofs.Line.Grammar
import FileShell.Proofs.Line.Reading
import FileShell.Proofs.Path.Patterns
import FileShell.Proofs.Shell.Run
import FileShell.Shell.Execute

/-! # What calls are bound to

A stage of a line that was read has arguments that fit its command's signature (`suits_of_read`).
Its operands are bound one by one, each to what its requirement asks for (`serves_of_bind`), and in
a session with an absolute working directory to normal paths (`isNormal_of_bind`). For the commands
that copy and move, these are sources with a destination behind them (`exists_destination_of_bind`).
-/

namespace FileShell

/-! ## Names on a volume -/

/-- **All names that a volume shows are names of entries**: those in its tree and those in listings
that are given in advance. -/
structure Volume.WellNamed (v : Volume) : Prop where
  tree : ∀ entry ∈ v.tree.entries, ∀ n ∈ entry.1, IsName n
  listing : ∀ p names, v.interference.listing p = some names → ∀ n ∈ names, IsName n

/-- What stands in a directory has the name of an entry. -/
theorem Volume.WellNamed.isName {v : Volume} (named : v.WellNamed) {p : Path} {names : List Text}
    (h : v.names p = .ok names) {n : Text} (hn : n ∈ names) : IsName n := by
  unfold Volume.names Volume.unlessRefused at h
  split at h
  · cases h
  · split at h
    · next given hlisting =>
      cases h
      exact named.listing p _ hlisting n hn
    · obtain ⟨l, -, h⟩ := Outcome.bind_eq_ok.1 h
      obtain ⟨d, -, h⟩ := Outcome.bind_eq_ok.1 h
      cases h
      obtain ⟨entry, hmem, hentry⟩ :=
        List.mem_filterMap.1 (List.mem_eraseDups.1 (Text.mem_sortBy.1 hn))
      split at hentry
      · exact named.tree entry hmem n (List.mem_of_getLast? hentry)
      · cases hentry

/-- **All names that a volume shows can stand in a path**: none of them is made of dots that lead
elsewhere, and none has a slash. That a name is not empty is left out. -/
def Volume.ShowsLegalNames (v : Volume) : Prop :=
  ∀ p names, v.names p = .ok names → ∀ n ∈ names, n ≠ ['.'] ∧ n ≠ ['.', '.'] ∧ '/' ∉ n

/-- The names of entries can stand in a path. -/
theorem Volume.WellNamed.showsLegalNames {v : Volume} (named : v.WellNamed) : v.ShowsLegalNames :=
  fun _ _ h _ hn => (named.isName h hn).2

/-! ## Arguments that were read -/

/-- The arguments of a stage were read off words. -/
theorem exists_read_of_readStages {c : Config} {texts : List Text} {stages : List Stage}
    (h : c.readStages texts = .ok stages) {stage : Stage} (hmem : stage ∈ stages) :
    ∃ name words, stage.command.signature.read name words = .ok stage.arguments := by
  induction texts generalizing stages with
  | nil =>
    cases h
    cases hmem
  | cons text rest ih =>
    obtain ⟨draft, first, others, -, -, hfirst, hothers, rfl⟩ := readStages_cons_eq_ok.1 h
    rcases List.mem_cons.1 hmem with rfl | hmem
    · exact ⟨draft.command, draft.words, (readStage_eq_ok.1 hfirst).2.1⟩
    · exact ih hothers hmem

/-- **The arguments of every stage of a line were read off words** by its command's signature. -/
theorem exists_read_of_parse {c : Config} {line : Text} {stages : List Stage}
    (h : c.parse line = .ok stages) {stage : Stage} (hmem : stage ∈ stages) :
    ∃ name words, stage.command.signature.read name words = .ok stage.arguments := by
  obtain ⟨texts, -, h⟩ := Outcome.bind_eq_ok.1 h
  exact exists_read_of_readStages h hmem

/-- **An operand suits a requirement**: it is left as it is if any word will do, and otherwise it
names paths, more than one only where a wildcard is allowed. -/
def Operand.Suits (requirement : Requirement) : Operand → Prop
  | .literal _ => requirement = .free
  | .path word kind =>
    requirement ≠ .free ∧ WordKind.ofWord? word = some kind ∧
      (kind = .wildcard → requirement = .singleOrWildcard)

/-- **Arguments fit a signature**: its options, its number of operands, and each of them as its
position requires. -/
structure Arguments.Suits (s : Signature) (a : Arguments) : Prop where
  options : ∀ option ∈ a.options, option ∈ s.options
  enough : s.arity.min ≤ a.operands.length
  notTooMany : ∀ max ∈ s.arity.max, a.operands.length ≤ max
  operands : ∀ (i : Nat) (operand : Operand), a.operands[i]? = some operand →
    operand.Suits (s.requirement i a.operands.length)

section

variable {signature : Signature} {command : Text}

/-- The words that pass for options are options. -/
theorem mem_options_of_partition {words options operands : List Text}
    (h : signature.partition command words = .ok (options, operands)) :
    ∀ option ∈ options, option ∈ signature.options := by
  induction words generalizing options operands with
  | nil =>
    cases h
    simp
  | cons word rest ih =>
    rw [Signature.partition] at h
    split at h
    · next hword =>
      obtain ⟨⟨options', operands'⟩, hrest, h⟩ := Outcome.bind_eq_ok.1 h
      cases h
      intro option hoption
      rcases List.mem_cons.1 hoption with rfl | hoption
      · exact List.contains_iff_mem.1 hword
      · exact ih hrest option hoption
    · split at h
      · cases h
      · obtain ⟨⟨options', operands'⟩, hrest, h⟩ := Outcome.bind_eq_ok.1 h
        cases h
        exact ih hrest

/-- A number of operands that passes lies between the fewest and the most. -/
theorem checkCount_eq_ok {count : Nat} (h : signature.checkCount command count = .ok ()) :
    signature.arity.min ≤ count ∧ ∀ max ∈ signature.arity.max, count ≤ max := by
  unfold Signature.checkCount at h
  split at h
  · cases h
  · next hmin =>
    split at h
    · cases h
    · next hmax =>
      refine ⟨Nat.not_lt.1 hmin, fun max hmem => ?_⟩
      rw [Option.mem_def.1 hmem, Option.any_some, decide_eq_true_eq] at hmax
      exact Nat.not_lt.1 hmax

/-- **An operand that was read suits the requirement of its position.** -/
theorem suits_of_readOperand {index count : Nat} {word : Text} {operand : Operand}
    (h : signature.readOperand command index count word = .ok operand) :
    operand.Suits (signature.requirement index count) := by
  unfold Signature.readOperand at h
  simp only at h
  split at h
  · next hfree =>
    cases h
    simpa [Operand.Suits, Requirement.isPath] using hfree
  · next hpath =>
    have hpath : signature.requirement index count ≠ .free := by
      simpa [Requirement.isPath] using hpath
    split at h
    · cases h
    · next hword =>
      cases h
      exact ⟨hpath, hword, nofun⟩
    · next hword =>
      split at h
      · next hwildcard =>
        cases h
        exact ⟨hpath, hword, fun _ => by simpa [Requirement.allowsWildcard] using hwildcard⟩
      · cases h

/-- Operands are read one by one, each for its position. -/
theorem suits_of_readOperands {index count : Nat} {words : List Text} {operands : List Operand}
    (h : signature.readOperands command count index words = .ok operands) :
    operands.length = words.length ∧ ∀ (i : Nat) (operand : Operand), operands[i]? = some operand →
      operand.Suits (signature.requirement (index + i) count) := by
  induction words generalizing index operands with
  | nil =>
    cases h
    simp
  | cons word rest ih =>
    obtain ⟨first, hfirst, h⟩ := Outcome.bind_eq_ok.1 h
    obtain ⟨others, hothers, h⟩ := Outcome.bind_eq_ok.1 h
    cases h
    obtain ⟨hlength, hsuits⟩ := ih hothers
    refine ⟨by rw [List.length_cons, List.length_cons, hlength], fun i operand hi => ?_⟩
    cases i with
    | zero =>
      obtain rfl : first = operand := by simpa using hi
      exact suits_of_readOperand hfirst
    | succ i =>
      rw [Nat.add_comm i, ← Nat.add_assoc]
      exact hsuits i operand (by simpa using hi)

/-- **Arguments that were read by a signature suit it.** -/
theorem suits_of_read {words : List Text} {arguments : Arguments}
    (h : signature.read command words = .ok arguments) : arguments.Suits signature := by
  obtain ⟨⟨options, words'⟩, hpartition, h⟩ := Outcome.bind_eq_ok.1 h
  obtain ⟨⟨⟩, hcheck, h⟩ := Outcome.bind_eq_ok.1 h
  obtain ⟨operands, hread, h⟩ := Outcome.bind_eq_ok.1 h
  cases h
  rw [Outcome.mapError_eq_ok_iff] at hpartition hcheck
  obtain ⟨hmin, hmax⟩ := checkCount_eq_ok hcheck
  obtain ⟨hlength, hsuits⟩ := suits_of_readOperands hread
  rw [← hlength] at hmin hmax hsuits
  exact ⟨mem_options_of_partition hpartition, hmin, hmax, by simpa using hsuits⟩

end

/-! ## Stages that were read -/

/-- **A stage that was read**: its command can be called, its arguments fit the command's signature,
and its output goes to a single path if it is redirected. -/
structure Stage.WellRead (c : Config) (stage : Stage) : Prop where
  enabled : c.enables stage.command = true
  arguments : stage.arguments.Suits stage.command.signature
  target : ∀ r ∈ stage.redirection, WordKind.ofWord? r.target = some .single

/-- The redirection of a draft names a single path. -/
theorem single_of_ofText {text : Text} {draft : Draft} (h : Draft.ofText text = .ok draft) :
    ∀ r ∈ draft.redirection, WordKind.ofWord? r.target = some .single := by
  obtain ⟨redirection, command, words, hcuts, -, rfl⟩ := ofText_eq_ok.1 h
  rintro r rfl
  unfold redirectionOfCuts at hcuts
  split at hcuts
  · cases hcuts
  · obtain ⟨r', hr', heq⟩ := Outcome.map_eq_ok.1 hcuts
    cases heq
    obtain ⟨target, -, hsingle, rfl⟩ := readRedirection_eq_ok.1 hr'
    exact hsingle
  · cases hcuts

/-- A draft that is not the last one has no redirection. -/
theorem redirection_eq_none_of_check {draft : Draft}
    (h : Config.checkRedirection false draft = .ok ()) : draft.redirection = none := by
  unfold Config.checkRedirection at h
  split at h
  · cases h
  · assumption

/-- **Stages are well read one by one**, and none but the last has a redirection. -/
theorem wellRead_of_readStages {c : Config} {texts : List Text} {stages : List Stage}
    (h : c.readStages texts = .ok stages) :
    stages.length = texts.length ∧ (∀ stage ∈ stages, stage.WellRead c) ∧
      ∀ stage ∈ stages.dropLast, stage.redirection = none := by
  induction texts generalizing stages with
  | nil =>
    cases h
    simp
  | cons text rest ih =>
    obtain ⟨draft, first, others, hdraft, hcheck, hfirst, hothers, rfl⟩ :=
      readStages_cons_eq_ok.1 h
    obtain ⟨hcommand, hread, hredirection⟩ := readStage_eq_ok.1 hfirst
    obtain ⟨hlength, hwell, hplain⟩ := ih hothers
    refine ⟨by rw [List.length_cons, List.length_cons, hlength], fun stage hmem => ?_,
      fun stage hmem => ?_⟩
    · rcases List.mem_cons.1 hmem with rfl | hmem
      · refine ⟨(Config.lookUp_eq_ok.1 hcommand).2, suits_of_read hread, ?_⟩
        rw [hredirection]
        exact single_of_ofText hdraft
      · exact hwell stage hmem
    · -- a stage before the last one has texts behind it
      cases others with
      | nil => cases hmem
      | cons next later =>
        rcases List.mem_cons.1 hmem with rfl | hmem
        · have hrest : rest.isEmpty = false := by
            cases rest with
            | nil => cases hlength
            | cons _ _ => rfl
          rw [hrest] at hcheck
          rw [hredirection]
          exact redirection_eq_none_of_check hcheck
        · exact hplain stage hmem

/-- **The stages of a line that was read**: there is at least one, each of them is well read, and
none but the last has a redirection. -/
theorem wellRead_of_parse {c : Config} {line : Text} {stages : List Stage}
    (h : c.parse line = .ok stages) :
    stages ≠ [] ∧ (∀ stage ∈ stages, stage.WellRead c) ∧
      ∀ stage ∈ stages.dropLast, stage.redirection = none := by
  obtain ⟨texts, htexts, h⟩ := Outcome.bind_eq_ok.1 h
  rw [Outcome.mapError_eq_ok_iff] at htexts
  obtain ⟨rfl, -⟩ := stageTexts_eq_ok.1 htexts
  obtain ⟨hlength, hstages⟩ := wellRead_of_readStages h
  refine ⟨fun hnil => ?_, hstages⟩
  rw [hnil, List.length_nil, List.length_map] at hlength
  exact cutAtBars_ne_nil _ _ _ (List.eq_nil_of_length_eq_zero hlength.symm)

/-- The arguments of a line's only stage are such as its command takes. -/
theorem suits_of_parse {c : Config} {line : Text} {stage : Stage}
    (h : c.parse line = .ok [stage]) : stage.arguments.Suits stage.command.signature :=
  ((wellRead_of_parse h).2.1 stage (List.mem_singleton_self _)).arguments

/-! ## Operands that were bound -/

variable {session : Session} {v : Volume} {scope : MatchScope} {command : Text}

/-- There is always a match, and every match is an entry of the directory whose name matches. -/
theorem exists_name_of_expand {word : Text} {paths : List Path}
    (h : session.expand v scope word = .ok paths) :
    paths ≠ [] ∧ ∀ p ∈ paths, ∃ directory names n,
      v.names (session.resolve directory) = .ok names ∧ n ∈ names ∧
      globMatches (splitAtLastSlash word).2 n = true ∧ p = (session.resolve directory).child n := by
  obtain ⟨hne, names, hnames, rfl⟩ := Session.expand_eq_ok_iff.1 h
  refine ⟨hne, fun p hp => ?_⟩
  obtain ⟨n, hn, rfl⟩ := List.mem_map.1 (List.mem_filter.1 hp).1
  obtain ⟨hmem, hmatch⟩ := List.mem_filter.1 hn
  exact ⟨_, names, n, hnames, hmem, hmatch, rfl⟩

/-- **What an operand is bound to**: a word that is left as it is stands for itself, a single path
is resolved, and a wildcard stands for its matches, of which there is at least one. -/
inductive Bound.Serves (session : Session) : Requirement → Operand → Bound → Prop
  | literal (word : Text) : Bound.Serves session .free (.literal word) (.literal word)
  | path {requirement : Requirement} (needed : requirement ≠ .free) (word : Text) :
      Bound.Serves session requirement (.path word .single) (.path (session.resolve word))
  | matched (word : Text) {paths : List Path} (found : paths ≠ []) :
      Bound.Serves session .singleOrWildcard (.path word .wildcard) (.matched paths)

/-- What serves a requirement for paths has a path. -/
theorem Bound.Serves.paths_ne_nil {requirement : Requirement} {operand : Operand} {bound : Bound}
    (h : Bound.Serves session requirement operand bound) (needed : requirement ≠ .free) :
    bound.paths ≠ [] := by
  cases h with
  | literal word => exact absurd rfl needed
  | path _ word => simp
  | matched word found => exact found

/-- **An operand that suits its requirement is bound to what serves it.** -/
theorem serves_of_bindOperand {requirement : Requirement} {operand : Operand} {bound : Bound}
    (suits : operand.Suits requirement)
    (h : session.bindOperand v scope command requirement operand = .ok bound) :
    Bound.Serves session requirement operand bound := by
  cases operand with
  | literal word =>
    obtain rfl : requirement = .free := suits
    cases h
    exact .literal word
  | path word kind =>
    obtain ⟨hneeded, -, hwildcard⟩ := suits
    cases kind with
    | single =>
      simp only [Session.bindOperand] at h
      split at h
      · cases h
      · cases h
        exact .path hneeded word
    | wildcard =>
      obtain rfl := hwildcard rfl
      simp only [Session.bindOperand] at h
      split at h
      · cases h
      · next paths hpaths =>
        cases h
        exact .matched word (exists_name_of_expand hpaths).1

/-- **The paths that an operand is bound to are normal** in an absolute working directory. -/
theorem isNormal_of_bindOperand (absolute : session.cwd.isAbsolute = true)
    (legal : v.ShowsLegalNames) {requirement : Requirement} {operand : Operand} {bound : Bound}
    (suits : operand.Suits requirement)
    (h : session.bindOperand v scope command requirement operand = .ok bound) :
    ∀ p ∈ bound.paths, p.IsNormal := by
  intro p hp
  cases operand with
  | literal word =>
    cases h
    cases hp
  | path word kind =>
    obtain ⟨-, hword, -⟩ := suits
    cases kind with
    | single =>
      simp only [Session.bindOperand] at h
      split at h
      · cases h
      · cases h
        obtain rfl : p = session.resolve word := by simpa using hp
        exact isNormal_resolve absolute word
    | wildcard =>
      simp only [Session.bindOperand] at h
      split at h
      · cases h
      · next paths hpaths =>
        cases h
        obtain ⟨directory, names, n, hnames, hn, hmatch, rfl⟩ :=
          (exists_name_of_expand hpaths).2 p hp
        -- a listing may show an empty name, but no wildcard matches it
        have hname : IsName n := ⟨ne_nil_of_globMatches hword hmatch, legal _ names hnames n hn⟩
        have hdirectory : (session.resolve directory).IsNormal := isNormal_resolve absolute _
        exact (hdirectory.names_child hname).1

/-- Operands are bound one by one, each by its requirement. -/
theorem getElem?_of_bindOperands {signature : Signature} {count index : Nat}
    {operands : List Operand} {bound : List Bound}
    (h : session.bindOperands v scope command signature count index operands = .ok bound) :
    bound.length = operands.length ∧ ∀ (i : Nat) (operand : Operand) (b : Bound),
      operands[i]? = some operand → bound[i]? = some b →
        session.bindOperand v scope command (signature.requirement (index + i) count) operand =
          .ok b := by
  induction operands generalizing index bound with
  | nil =>
    cases h
    simp
  | cons first rest ih =>
    obtain ⟨b, hb, h⟩ := Outcome.bind_eq_ok.1 h
    obtain ⟨others, hothers, h⟩ := Outcome.bind_eq_ok.1 h
    cases h
    obtain ⟨hlength, hbound⟩ := ih hothers
    refine ⟨by rw [List.length_cons, List.length_cons, hlength], fun i operand c hi hc => ?_⟩
    cases i with
    | zero =>
      obtain ⟨rfl, rfl⟩ : first = operand ∧ b = c := by simpa using And.intro hi hc
      exact hb
    | succ i =>
      rw [Nat.add_comm i, ← Nat.add_assoc]
      exact hbound i operand c (by simpa using hi) (by simpa using hc)

/-- **The paths that an operand stands for**, where a wildcard that matches nothing has none. -/
def Session.pathsOf (session : Session) (v : Volume) (scope : MatchScope) : Operand → List Path
  | .literal _ => []
  | .path word .single => [session.resolve word]
  | .path word .wildcard =>
    match session.expand v scope word with
    | .ok paths => paths
    | .error _ => []

/-- An operand is bound to the paths that it stands for. -/
theorem paths_of_bindOperand {requirement : Requirement} {operand : Operand} {bound : Bound}
    (h : session.bindOperand v scope command requirement operand = .ok bound) :
    bound.paths = session.pathsOf v scope operand := by
  cases operand with
  | literal word =>
    cases h
    rfl
  | path word kind =>
    cases kind with
    | single =>
      simp only [Session.bindOperand] at h
      split at h
      · cases h
      · cases h
        rfl
    | wildcard =>
      simp only [Session.bindOperand] at h
      split at h
      · cases h
      · next paths hpaths =>
        cases h
        simp [Session.pathsOf, hpaths]

/-- **Operands are bound to the paths that they stand for**, in order. -/
theorem paths_of_bindOperands {signature : Signature} {count index : Nat} {operands : List Operand}
    {bound : List Bound}
    (h : session.bindOperands v scope command signature count index operands = .ok bound) :
    bound.flatMap Bound.paths = operands.flatMap (session.pathsOf v scope) := by
  induction operands generalizing index bound with
  | nil =>
    cases h
    rfl
  | cons operand rest ih =>
    obtain ⟨b, hb, h⟩ := Outcome.bind_eq_ok.1 h
    obtain ⟨others, hothers, h⟩ := Outcome.bind_eq_ok.1 h
    cases h
    rw [List.flatMap_cons, List.flatMap_cons, paths_of_bindOperand hb, ih hothers]

/-- Operands that name single paths are bound to these, unless they must be directories. -/
theorem bindOperands_single {signature : Signature} {count index : Nat} {operands : List Operand}
    (single : ∀ operand ∈ operands, ∃ word, operand = .path word .single)
    (any : ∀ i, signature.requirement i count ≠ .directory) :
    session.bindOperands v scope command signature count index operands =
      .ok (operands.map fun operand => .path (session.resolve operand.word)) := by
  induction operands generalizing index with
  | nil => rfl
  | cons operand rest ih =>
    obtain ⟨word, rfl⟩ := single operand List.mem_cons_self
    have hfirst : session.bindOperand v scope command (signature.requirement index count)
        (.path word .single) = .ok (.path (session.resolve word)) := by
      rw [Session.bindOperand]
      exact if_neg fun h => any index h.1
    rw [Session.bindOperands, hfirst, Outcome.ok_bind,
      ih fun o ho => single o (List.mem_cons_of_mem _ ho)]
    rfl

variable {signature : Signature} {arguments : Arguments} {piped : Option Text} {call : Call}

/-- A call is made of operands that were bound and that passed the rule for destinations. -/
theorem exists_bound_of_bind (h : session.bind v scope command signature arguments piped = .ok call) :
    ∃ bound, session.bindOperands v scope command signature arguments.operands.length 0
        arguments.operands = .ok bound ∧
      Session.checkLayout v command signature arguments.operands bound = .ok () ∧
      call = ⟨arguments.options, bound, piped⟩ := by
  obtain ⟨bound, hbound, h⟩ := Outcome.bind_eq_ok.1 h
  obtain ⟨⟨⟩, hlayout, h⟩ := Outcome.bind_eq_ok.1 h
  cases h
  exact ⟨bound, hbound, Outcome.mapError_eq_ok_iff.1 hlayout, rfl⟩

/-- **The paths of a call** are those that its operands stand for. -/
theorem paths_of_bind (h : session.bind v scope command signature arguments piped = .ok call) :
    call.paths = arguments.operands.flatMap (session.pathsOf v scope) := by
  obtain ⟨bound, hbound, -, rfl⟩ := exists_bound_of_bind h
  exact paths_of_bindOperands hbound

/-- **A call has an operand for every operand**, and each serves the requirement of its position. -/
theorem serves_of_bind (suits : arguments.Suits signature)
    (h : session.bind v scope command signature arguments piped = .ok call) :
    call.options = arguments.options ∧ call.operands.length = arguments.operands.length ∧
      ∀ (i : Nat) (operand : Operand) (b : Bound), arguments.operands[i]? = some operand →
        call.operands[i]? = some b →
          Bound.Serves session (signature.requirement i arguments.operands.length) operand b := by
  obtain ⟨bound, hbound, -, rfl⟩ := exists_bound_of_bind h
  obtain ⟨hlength, hoperands⟩ := getElem?_of_bindOperands hbound
  refine ⟨rfl, hlength, fun i operand b hi hb => ?_⟩
  have hb := hoperands i operand b hi hb
  rw [Nat.zero_add] at hb
  exact serves_of_bindOperand (suits.operands i operand hi) hb

/-- A stage is bound by the session and the volume of the state. -/
theorem bind_of_bindStage {env : Environment} {stage : Stage} {s s' : State}
    (h : bindStage env stage piped s = .ok call s') :
    s.session.bind s.volume (env.config.matchScope stage.command.name) stage.command.name
      stage.command.signature stage.arguments piped = .ok call := by
  rw [bindStage, Shell.ofExcept_apply] at h
  split at h
  · next made hbind =>
    cases h
    exact hbind
  · cases h

/-- A stage is bound where its arguments are. -/
theorem bindStage_of_bind {env : Environment} {stage : Stage} {s : State}
    (h : s.session.bind s.volume (env.config.matchScope stage.command.name) stage.command.name
      stage.command.signature stage.arguments piped = .ok call) :
    bindStage env stage piped s = .ok call s := by
  rw [bindStage, h]
  rfl

/-- **All paths of a call are normal** in an absolute working directory. -/
theorem isNormal_of_bind (absolute : session.cwd.isAbsolute = true) (legal : v.ShowsLegalNames)
    (suits : arguments.Suits signature)
    (h : session.bind v scope command signature arguments piped = .ok call) :
    ∀ p ∈ call.paths, p.IsNormal := by
  obtain ⟨bound, hbound, -, rfl⟩ := exists_bound_of_bind h
  obtain ⟨hlength, hoperands⟩ := getElem?_of_bindOperands hbound
  intro p hp
  obtain ⟨b, hb, hp⟩ := List.mem_flatMap.1 hp
  obtain ⟨i, hi⟩ := List.mem_iff_getElem?.1 hb
  obtain ⟨operand, hoperand⟩ : ∃ operand, arguments.operands[i]? = some operand := by
    have hlt : i < arguments.operands.length :=
      hlength ▸ (List.getElem?_eq_some_iff.1 hi).1
    exact ⟨_, List.getElem?_eq_getElem hlt⟩
  have hbind := hoperands i operand b hoperand hi
  rw [Nat.zero_add] at hbind
  exact isNormal_of_bindOperand absolute legal (suits.operands i operand hoperand) hbind p hp

/-! ## Sources and a destination -/

/-- The two commands that copy and move have one signature. -/
theorem signature_of_transfers {command : Command} (h : command = .cp ∨ command = .mv) :
    command.signature = Command.transferSignature := by
  rcases h with rfl | rfl <;> rfl

/-- **The operands of a command that copies or moves** are sources with a destination behind them:
the last word names a single path and is resolved, and there is a path before it. -/
theorem exists_destination_of_bind (suits : arguments.Suits Command.transferSignature)
    (h : session.bind v scope command Command.transferSignature arguments piped = .ok call) :
    ∃ init word sources, arguments.operands = init ++ [.path word .single] ∧
      call.operands = sources ++ [.path (session.resolve word)] ∧
      sources.flatMap Bound.paths ≠ [] := by
  obtain ⟨-, hlength, hserves⟩ := serves_of_bind suits h
  have hmin : 2 ≤ arguments.operands.length := suits.enough
  obtain ⟨init, operand, hinit⟩ := (List.eq_nil_or_concat' arguments.operands).resolve_left <| by
    intro hnil
    rw [hnil] at hmin
    cases hmin
  obtain ⟨sources, b, hsources⟩ := (List.eq_nil_or_concat' call.operands).resolve_left <| by
    intro hnil
    rw [← hlength, hnil] at hmin
    cases hmin
  rw [hinit, hsources] at hlength hserves
  rw [hinit] at hmin
  simp only [List.length_append, List.length_singleton] at hlength hmin hserves
  have hlength : sources.length = init.length := by omega
  -- the last position is that of the destination
  have hlast : Bound.Serves session .single operand b := by
    have hserves := hserves init.length operand b (by simp) (by simp [← hlength])
    simpa [Signature.requirement, Command.transferSignature] using hserves
  cases hlast with
  | path _ word =>
    refine ⟨init, word, sources, hinit, hsources, ?_⟩
    -- and the first position is that of a source
    obtain ⟨o, init, rfl⟩ : ∃ o rest, init = o :: rest :=
      List.exists_cons_of_length_pos (by omega)
    obtain ⟨c, sources, rfl⟩ : ∃ c rest, sources = c :: rest :=
      List.exists_cons_of_length_pos (by rw [hlength]; simp)
    have hfirst : Bound.Serves session .singleOrWildcard o c := by
      have hserves := hserves 0 o c rfl rfl
      simpa [Signature.requirement, Command.transferSignature] using hserves
    simp [hfirst.paths_ne_nil nofun]

/-- More than one source has passed the rule for destinations only with a directory to go to. -/
theorem length_le_of_checkDestination {word : Text} {sources : List Bound} {destination : Path}
    (h : Session.checkDestination v command word sources (.path destination) = .ok ())
    (hdirectory : v.stat destination ≠ .directory) : (sources.flatMap Bound.paths).length ≤ 1 := by
  unfold Session.checkDestination at h
  simp only [Bound.paths_path, List.head?_cons, Option.any_some, decide_eq_false hdirectory,
    Bool.not_false, and_true, Bool.and_true] at h
  split at h
  · cases h
  · split at h
    · cases h
    · next hneeds =>
      rw [Session.needsDirectory, Bool.or_eq_true, not_or, decide_eq_true_eq] at hneeds
      exact Nat.not_lt.1 hneeds.1

/-- **What a command that copies or moves is called with**: sources and a destination, all by normal
paths, and at most one source unless the destination is a directory. -/
theorem exists_sources_of_bind (absolute : session.cwd.isAbsolute = true)
    (legal : v.ShowsLegalNames) (suits : arguments.Suits Command.transferSignature)
    (h : session.bind v scope command Command.transferSignature arguments piped = .ok call) :
    ∃ sources destination, call.paths = sources ++ [destination] ∧ destination.IsNormal ∧
      (∀ p ∈ sources, p.IsNormal) ∧
      (v.stat destination ≠ .directory → sources.length ≤ 1) := by
  have hnormal : ∀ p ∈ call.paths, p.IsNormal := isNormal_of_bind absolute legal suits h
  obtain ⟨init, word, sources, hinit, hsources, -⟩ := exists_destination_of_bind suits h
  obtain ⟨bound, -, hlayout, rfl⟩ := exists_bound_of_bind h
  obtain rfl : bound = sources ++ [.path (session.resolve word)] := hsources
  have hpaths : (Call.mk arguments.options (sources ++ [.path (session.resolve word)]) piped).paths =
      sources.flatMap Bound.paths ++ [session.resolve word] := by simp [Call.paths]
  rw [hpaths] at hnormal
  refine ⟨_, _, hpaths, hnormal _ (by simp), fun p hp => hnormal p (List.mem_append_left _ hp),
    fun hdirectory => ?_⟩
  rw [hinit] at hlayout
  simp only [Session.checkLayout, Command.transferSignature, List.getLast?_concat,
    List.dropLast_concat] at hlayout
  exact length_le_of_checkDestination hlayout hdirectory

/-- The same, from the words that the arguments were read off. -/
theorem exists_paths_of_bind (absolute : session.cwd.isAbsolute = true) (named : v.WellNamed)
    {name : Text} {words : List Text}
    (read : Command.transferSignature.read name words = .ok arguments)
    (h : session.bind v scope command Command.transferSignature arguments piped = .ok call) :
    ∃ sources destination, call.paths = sources ++ [destination] ∧ destination.IsNormal ∧
      (∀ p ∈ sources, p.IsNormal) ∧
      (v.stat destination ≠ .directory → sources.length ≤ 1) :=
  exists_sources_of_bind absolute named.showsLegalNames (suits_of_read read) h

end FileShell
