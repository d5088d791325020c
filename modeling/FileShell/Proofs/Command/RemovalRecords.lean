import FileShell.Proofs.Command.Remove

/-! # What the log says of removals

An operand that ends well is followed by a record that names it. One that is left in place ends
well, too: the user has been asked in vain, nothing is removed, and it is named all the same. So the
records name the operands at which something was removed if and only if no operand was left in
place.

* **`removesSomething`**, **`leftInPlace`** — what becomes of an operand that a run reaches.
* **`removeOne_cases`** — the three ways in which an operand can end.
* **`records_of_removals`** — the operands that the records of a whole run name. -/

namespace FileShell

variable {command : Command} {recursive : Bool} {path : Path} {s : State}

/-! ## One operand -/

/-- Whether an operand ends well, so that the run goes on. -/
def endsWell (command : Command) (recursive : Bool) (visit : Path × State) : Bool :=
  match removeOne command recursive visit.1 visit.2 with
  | .ok _ _ => true
  | .error _ _ => false

/-- **Whether an operand is left in place**: the user is asked and does not agree. -/
def leftInPlace (recursive : Bool) (visit : Path × State) : Bool :=
  asks recursive visit.1 visit.2 && !visit.2.console.agrees

/-- **Whether something is removed at an operand**: an entry that was there is gone. -/
def removesSomething (command : Command) (recursive : Bool) (visit : Path × State) : Bool :=
  visit.2.volume.tree.entries.any fun entry =>
    ((Shell.reached (removeOne command recursive visit.1 visit.2)).volume.tree.get? entry.1).isNone

/-- Something is removed where there is a location that is left without its entry. -/
theorem removesSomething_iff {visit : Path × State} :
    removesSomething command recursive visit = true ↔
      ∃ l, visit.2.volume.tree.get? l ≠ none ∧
        (Shell.reached (removeOne command recursive visit.1 visit.2)).volume.tree.get? l = none := by
  rw [removesSomething, List.any_eq_true]
  constructor
  · rintro ⟨entry, hentry, hgone⟩
    rw [Option.isNone_iff_eq_none] at hgone
    -- the root is never gone
    have hroot : entry.1 ≠ [] := by
      intro hroot
      rw [hroot] at hgone
      cases hgone
    exact ⟨entry.1, (Tree.get?_ne_none_iff hroot).2 ⟨entry, hentry, rfl⟩, hgone⟩
  · rintro ⟨l, hthere, hgone⟩
    have hroot : l ≠ [] := by
      rintro rfl
      cases hgone
    obtain ⟨entry, hentry, rfl⟩ := (Tree.get?_ne_none_iff hroot).1 hthere
    exact ⟨entry, hentry, Option.isNone_iff_eq_none.2 hgone⟩

/-- A directory with entries that may be removed is removed, unless that is refused. -/
theorem removeWith_removeAll_cases (command : Command) (full : s.volume.isFull path = true)
    (linkless : s.volume.tree.Linkless) (normal : path.IsNormal) (below : path.names ≠ [])
    (c : Console) :
    (∃ tree, Tree.Takes path s.volume.tree tree ∧
        removeWith command path (·.removeAll path) { s with console := c } =
          .ok () { s with console := c, volume := s.volume.withTree tree }) ∨
      ∃ e, removeWith command path (·.removeAll path) { s with console := c } =
        .error e { s with console := c } := by
  have hstat : s.volume.stat path = .directory := by
    simpa using (Bool.and_eq_true_iff.1 full).1
  obtain ⟨l, hlocate, directory⟩ := Volume.exists_of_stat_eq_directory hstat
  obtain ⟨tree, hremoved, htakes⟩ :=
    Tree.exists_of_removeAll hlocate directory linkless normal below
  rcases hrefusal : s.volume.interference.refusal .removeAll path with _ | reason
  · have hremove : s.volume.removeAll path = (.ok (), s.volume.withTree tree) := by
      rw [Volume.removeAll, Volume.afterAttempt, hrefusal, hremoved]
    have hattempt : Shell.attempt (·.removeAll path) { s with console := c } = _ :=
      Shell.attempt_of_eq hremove
    exact .inl ⟨tree, htakes, Shell.bind_of_ok hattempt⟩
  · have hremove : s.volume.removeAll path = (.error (.refused reason), s.volume) := by
      rw [Volume.removeAll, Volume.afterAttempt, hrefusal]
    have hattempt : Shell.attempt (·.removeAll path) { s with console := c } = _ :=
      Shell.attempt_of_eq hremove
    exact .inr ⟨_, Shell.bind_of_ok hattempt⟩

/-- **The three ways in which an operand can end.** It fails, and nothing is removed; or it is not
left in place, and it is gone; or it is left in place, and nothing is touched. It is not named in a
record until it has ended. -/
theorem removeOne_cases (command : Command) (recursive : Bool)
    (linkless : s.volume.tree.Linkless) (normal : path.IsNormal) (below : path.names ≠ []) :
    (leftInPlace recursive (path, s) = false ∧ ∃ e s', removeOne command recursive path s =
        .error e s' ∧ s'.volume = s.volume ∧ s'.journal = s.journal) ∨
      (leftInPlace recursive (path, s) = false ∧ ∃ s', removeOne command recursive path s =
        .ok () s' ∧ Tree.Takes path s.volume.tree s'.volume.tree ∧ s'.journal = s.journal) ∨
      (leftInPlace recursive (path, s) = true ∧ ∃ s', removeOne command recursive path s =
        .ok () s' ∧ s.volume.Untouched s'.volume ∧
          Records .info (· = declinedText command path) s.journal s'.journal) := by
  cases hfull : s.volume.isFull path with
  | false =>
    have hunasked : leftInPlace recursive (path, s) = false := by simp [leftInPlace, asks, hfull]
    rcases @removeOne_of_not_isFull command recursive path s hfull with
      ⟨tree, hremove, heq⟩ | ⟨e, heq⟩
    · refine .inr (.inl ⟨hunasked, _, heq, ?_, rfl⟩)
      rcases hremove with hremove | hremove
      · exact Tree.takes_of_removeFile hremove linkless normal
      · exact Tree.takes_of_removeDirectory hremove linkless normal below
    · exact .inl ⟨hunasked, e, s, heq, rfl, rfl⟩
  | true =>
    rw [removeOne_of_isFull hfull]
    cases recursive with
    | true =>
      have hunasked : leftInPlace true (path, s) = false := by simp [leftInPlace, asks]
      rw [removeFull_recursive]
      rcases removeWith_removeAll_cases command hfull linkless normal below s.console with
        ⟨tree, htakes, heq⟩ | ⟨e, heq⟩
      · exact .inr (.inl ⟨hunasked, _, heq, htakes, rfl⟩)
      · exact .inl ⟨hunasked, e, _, heq, rfl, rfl⟩
    | false =>
      rcases removeFull_asking command path s with
        ⟨hagrees, heq⟩ | ⟨hrefuses, s', heq, -, huntouched, hrecords⟩
      · have hagreed : leftInPlace false (path, s) = false := by simp [leftInPlace, hagrees]
        rw [heq]
        rcases removeWith_removeAll_cases command hfull linkless normal below
            (s.console.ask (removalPrompt command path)).2 with ⟨tree, htakes, heq⟩ | ⟨e, heq⟩
        · exact .inr (.inl ⟨hagreed, _, heq, htakes, rfl⟩)
        · exact .inl ⟨hagreed, e, _, heq, rfl, rfl⟩
      · have hleft : leftInPlace false (path, s) = true := by
          simp [leftInPlace, asks, hfull, hrefuses]
        exact .inr (.inr ⟨hleft, s', heq, huntouched, hrecords⟩)

/-- **Something is removed at the operands that end well without being left in place.** -/
theorem removesSomething_eq (command : Command) (recursive : Bool)
    (linkless : s.volume.tree.Linkless) (normal : path.IsNormal) (below : path.names ≠ []) :
    removesSomething command recursive (path, s) =
      (endsWell command recursive (path, s) && !leftInPlace recursive (path, s)) := by
  rcases @removeOne_cases path s command recursive linkless normal below with
    ⟨hleft, e, s', heq, hvolume, -⟩ | ⟨hleft, s', heq, htakes, -⟩ | ⟨hleft, s', heq, huntouched, -⟩
  · have hnothing : ¬removesSomething command recursive (path, s) = true := by
      rw [removesSomething_iff]
      rintro ⟨l, hthere, hgone⟩
      rw [heq] at hgone
      change s'.volume.tree.get? l = none at hgone
      rw [hvolume] at hgone
      exact hthere hgone
    rw [Bool.eq_false_iff.2 hnothing, endsWell]
    simp only [heq, Bool.false_and]
  · have hsomething : removesSomething command recursive (path, s) = true :=
      removesSomething_iff.2 ⟨path.names, htakes.before, by rw [heq]; exact htakes.after⟩
    rw [hsomething, endsWell, hleft]
    simp only [heq, Bool.not_false, Bool.and_self]
  · have hnothing : ¬removesSomething command recursive (path, s) = true := by
      rw [removesSomething_iff]
      rintro ⟨l, hthere, hgone⟩
      rw [heq] at hgone
      exact hthere ((huntouched.present l).1 hgone)
    rw [Bool.eq_false_iff.2 hnothing, hleft]
    simp

/-! ## Records that name operands -/

/-- **The record that names an operand as removed**: the name of the command, a colon, a blank and
nothing but the path. -/
def removalRecord (command : Command) (path : Path) : Record :=
  ⟨.info, command.name ++ ": ".toList ++ path.text⟩

/-- **Whether a record names one of some paths as removed.** -/
def namesRemoved (command : Command) (paths : List Path) (r : Record) : Bool :=
  paths.any fun path => r = removalRecord command path

/-- A path that was left in place on request is not named so. -/
theorem declinedText_ne_removalText {p : Path} (normal : p.IsNormal) :
    declinedText command path ≠ removalText command p := by
  intro heq
  have habsolute : p.text.head? = some '/' := by simpa [Path.isAbsolute] using normal.isAbsolute
  have hrest : "declined removal of ".toList ++ path.text = p.text := by
    have hsplit : ": declined removal of ".toList = ": ".toList ++ "declined removal of ".toList :=
      rfl
    rw [declinedText, removalText, hsplit, List.append_assoc, List.append_assoc, List.append_assoc]
      at heq
    exact List.append_cancel_left (List.append_cancel_left heq)
  rw [← hrest] at habsolute
  exact absurd habsolute (by simp)

/-- The records made while an operand is left in place name nothing as removed. -/
theorem Records.filter_namesRemoved {paths : List Path} (normal : ∀ p ∈ paths, p.IsNormal)
    {made : List Record}
    (hmade : ∀ r ∈ made, r.level = .info → r.text = declinedText command path) :
    made.filter (namesRemoved command paths) = [] := by
  rw [List.filter_eq_nil_iff]
  intro r hr hnames
  rw [namesRemoved, List.any_eq_true] at hnames
  obtain ⟨p, hp, hrecord⟩ := hnames
  rw [decide_eq_true_eq] at hrecord
  have htext := hmade r hr (by rw [hrecord]; rfl)
  rw [hrecord] at htext
  exact declinedText_ne_removalText (normal p hp) htext.symm

/-- **The records of a run name the operands that have ended well**, in order, and no others. -/
theorem removeOperands_records {operands paths : List Path} (some : ∀ p ∈ paths, p ∈ operands)
    (normal : ∀ p ∈ operands, p.IsNormal ∧ p.names ≠ []) (linkless : s.volume.tree.Linkless) :
    ∃ made, (Shell.reached (removeOperands command recursive paths s)).journal =
        s.journal ++ made ∧
      made.filter (namesRemoved command operands) =
        ((visits command recursive paths s).filter (endsWell command recursive)).map fun visit =>
          removalRecord command visit.1 := by
  induction paths generalizing s with
  | nil => exact ⟨[], (List.append_nil s.journal).symm, rfl⟩
  | cons path rest ih =>
    have hoperand := some path List.mem_cons_self
    obtain ⟨hnormal, hbelow⟩ := normal path hoperand
    have hstep := handled_removeOne command recursive linkless hnormal hbelow
    have hnamed : namesRemoved command operands (removalRecord command path) = true := by
      rw [namesRemoved, List.any_eq_true]
      exact ⟨path, hoperand, by simp⟩
    -- what an operand that ends well contributes, and then the rest of the run
    have hgoesOn : ∀ s' made, removeOne command recursive path s = .ok () s' →
        s'.journal = s.journal ++ made → made.filter (namesRemoved command operands) = [] →
        ∃ made, (Shell.reached (removeOperands command recursive (path :: rest) s)).journal =
            s.journal ++ made ∧
          made.filter (namesRemoved command operands) =
            ((visits command recursive (path :: rest) s).filter (endsWell command recursive)).map
              fun visit => removalRecord command visit.1 := by
      intro s' made hone hjournal hmade
      rw [hone] at hstep
      obtain ⟨later, hlater, hrecords⟩ :=
        ih (s := s'.logged .info (removalText command path))
          (fun p hp => some p (List.mem_cons_of_mem _ hp))
          (hstep.linkless.congr (Volume.sameWays_logged _ _))
      have hends : endsWell command recursive (path, s) = true := by simp only [endsWell, hone]
      refine ⟨made ++ removalRecord command path :: later, ?_, ?_⟩
      · rw [removeOperands, Shell.bind_of_ok hone]
        refine hlater.trans ?_
        change s'.journal ++ [removalRecord command path] ++ later = _
        rw [hjournal, List.append_assoc, List.append_assoc]
        rfl
      · rw [List.filter_append, hmade, List.filter_cons_of_pos hnamed, hrecords, visits,
          List.filter_cons_of_pos hends]
        simp only [hone]
        rfl
    rcases @removeOne_cases path s command recursive linkless hnormal hbelow with
      ⟨-, e, s', hone, -, hjournal⟩ | ⟨-, s', hone, -, hjournal⟩ |
      ⟨-, s', hone, -, made, hjournal, hmade⟩
    · -- the operand ends the run, and it is not named
      have hends : ¬endsWell command recursive (path, s) = true := by simp [endsWell, hone]
      refine ⟨[], ?_, ?_⟩
      · rw [removeOperands, Shell.bind_of_error hone, List.append_nil]
        exact hjournal
      · rw [visits, List.filter_cons_of_neg hends]
        simp only [hone]
        rfl
    · exact hgoesOn s' [] hone (by rw [hjournal, List.append_nil]) rfl
    · exact hgoesOn s' made hone hjournal
        (Records.filter_namesRemoved (fun p hp => (normal p hp).1) hmade)

/-! ## Whole runs -/

/-- Leaving out what has a property changes a list if and only if something in it has the
property. -/
theorem map_filter_eq_iff {α β : Type} {f : α → β} {keep drop : α → Bool} {l : List α}
    (h : ∀ a ∈ l, drop a = true → keep a = true) :
    (l.filter keep).map f = (l.filter fun a => keep a && !drop a).map f ↔
      ∀ a ∈ l, drop a = false := by
  have hfilter : (l.filter fun a => keep a && !drop a) =
      (l.filter keep).filter fun a => !drop a := by
    rw [List.filter_filter]
    exact List.filter_congr fun a _ => Bool.and_comm _ _
  rw [hfilter]
  constructor
  · intro heq a ha
    have hlength := congrArg List.length heq
    rw [List.length_map, List.length_map] at hlength
    have hnone := List.length_filter_eq_length_iff.1 hlength.symm
    by_contra hdrop
    rw [Bool.not_eq_false] at hdrop
    have hkept := hnone a (List.mem_filter.2 ⟨ha, h a ha hdrop⟩)
    simp [hdrop] at hkept
  · intro hnone
    have hkept : ((l.filter keep).filter fun a => !drop a) = l.filter keep := by
      rw [List.filter_eq_self]
      intro a ha
      rw [hnone a (List.mem_filter.1 ha).1]
      rfl
    rw [hkept]

/-- **The operands that the records of a run name** are those that have ended well, in order.
Something was removed at just those of them that were not left in place, and at no other operand;
so the records name exactly the operands at which something was removed if and only if none was
left in place. -/
theorem records_of_removals (env : Environment) {command : Command}
    (removes : command = .rm ∨ command = .rmdir) {call : Call} {s : State}
    (normal : ∀ p ∈ call.paths, p.IsNormal ∧ p.names ≠ []) (linkless : s.volume.tree.Linkless) :
    let recursive := call.has Command.recursiveOption
    let visited := visits command recursive call.paths s
    ∃ made, (Shell.reached (command.run env call s)).journal = s.journal ++ made ∧
      made.filter (namesRemoved command call.paths) =
        (visited.filter (endsWell command recursive)).map
          (fun visit => removalRecord command visit.1) ∧
      (∀ visit ∈ visited, removesSomething command recursive visit =
        (endsWell command recursive visit && !leftInPlace recursive visit)) ∧
      (made.filter (namesRemoved command call.paths) =
          (visited.filter (removesSomething command recursive)).map
            (fun visit => removalRecord command visit.1) ↔
        ∀ visit ∈ visited, leftInPlace recursive visit = false) := by
  intro recursive visited
  obtain ⟨made, hjournal, hrecords⟩ :=
    @removeOperands_records command recursive s call.paths call.paths (fun p hp => hp) normal
      linkless
  -- every operand that is reached is one of the call, and is reached where there are no links
  have hvisited : ∀ visit ∈ visited, visit.1 ∈ call.paths ∧ visit.2.volume.tree.Linkless := by
    intro visit hvisit
    obtain ⟨before, after, hpaths, -⟩ := mem_visits.1 hvisit
    exact ⟨by simp [hpaths], (linkless_of_mem_visits normal linkless visit hvisit).1⟩
  have hsomething : ∀ visit ∈ visited, removesSomething command recursive visit =
      (endsWell command recursive visit && !leftInPlace recursive visit) := by
    intro visit hvisit
    obtain ⟨hpath, hlinkless⟩ := hvisited visit hvisit
    exact removesSomething_eq command recursive hlinkless (normal _ hpath).1 (normal _ hpath).2
  have hends : ∀ visit ∈ visited, leftInPlace recursive visit = true →
      endsWell command recursive visit = true := by
    intro visit hvisit hleft
    obtain ⟨hpath, hlinkless⟩ := hvisited visit hvisit
    rcases removeOne_cases command recursive hlinkless (normal _ hpath).1 (normal _ hpath).2 with
      ⟨hnot, -⟩ | ⟨hnot, -⟩ | ⟨-, s', heq, -⟩
    · exact absurd hleft (Bool.eq_false_iff.1 hnot)
    · exact absurd hleft (Bool.eq_false_iff.1 hnot)
    · simp only [endsWell, heq]
  refine ⟨made, ?_, hrecords, hsomething, ?_⟩
  · rw [reached_run_remove env removes]
    exact hjournal
  · rw [hrecords, List.filter_congr hsomething]
    exact map_filter_eq_iff hends

/-- Two directories with entries, of which one is removed by consent and the other one is left in
place: the records name both. -/
theorem records_of_removals_two :
    let tree : Tree := ⟨[([['d']], .directory), ([['d'], ['f']], .file .empty),
      ([['e']], .directory), ([['e'], ['f']], .file .empty)]⟩
    let s : State := { State.atRoot tree with console := ⟨[.line ['y'], .line ['n']], []⟩ }
    let call : Call := ⟨[], [.path ⟨['/', 'd']⟩, .path ⟨['/', 'e']⟩], none⟩
    ∃ made, (Shell.reached (Command.rm.run .plain call s)).journal = s.journal ++ made ∧
      made.filter (namesRemoved .rm call.paths) =
        [removalRecord .rm ⟨['/', 'd']⟩, removalRecord .rm ⟨['/', 'e']⟩] ∧
      made.filter (namesRemoved .rm call.paths) ≠
        ((visits .rm false call.paths s).filter (removesSomething .rm false)).map fun visit =>
          removalRecord .rm visit.1 := by
  intro tree s call
  have hpaths : call.paths = [⟨['/', 'd']⟩, ⟨['/', 'e']⟩] := rfl
  have normal : ∀ p ∈ call.paths, p.IsNormal ∧ p.names ≠ [] := by
    intro p hp
    have hp : p = ⟨['/', 'd']⟩ ∨ p = ⟨['/', 'e']⟩ := by simpa [hpaths] using hp
    rcases hp with rfl | rfl <;> exact ⟨rfl, nofun⟩
  have linkless : tree.Linkless := Tree.linkless_of_entries (by simp [tree])
  obtain ⟨made, hjournal, hrecords, -, htruthful⟩ :=
    @records_of_removals .plain .rm (.inl rfl) call s normal linkless
  refine ⟨made, hjournal, hrecords.trans (by rfl), fun heq => ?_⟩
  have hleft : ∃ visit ∈ visits .rm false call.paths s, leftInPlace false visit = true :=
    List.any_eq_true.1 (by rfl)
  obtain ⟨visit, hvisit, hleft⟩ := hleft
  have hnone : leftInPlace false visit = false := htruthful.1 heq visit hvisit
  rw [hleft] at hnone
  cases hnone

/-- A directory that is left in place because the user has declined is named as removed, although
nothing is removed at all. -/
theorem declined_removal_recorded :
    let tree : Tree := ⟨[([['d']], .directory), ([['d'], ['f']], .file .empty)]⟩
    let s : State := { State.atRoot tree with console := ⟨[.line ['n']], []⟩ }
    let call : Call := ⟨[], [.path ⟨['/', 'd']⟩], none⟩
    let after := Shell.reached (Command.rm.run .plain call s)
    (visits .rm false call.paths s).filter (removesSomething .rm false) = [] ∧
      after.journal.filter (namesRemoved .rm call.paths) = [removalRecord .rm ⟨['/', 'd']⟩] := by
  exact ⟨by rfl, by rfl⟩

end FileShell
