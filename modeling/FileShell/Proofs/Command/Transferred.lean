import FileShell.Proofs.Command.Move

/-! # What copying and moving come to

On a volume without links a run that ends well has copied every source that is no directory. Each
target holds what the last source held that goes there, the sources of a move are gone, and
everything else is as it was (`transferred_exactly`).

* **`Tree.afterCopies`** — what stands at a location after copies.
* **`Copied`** — what copies have made of a volume, location by location.
* **`Cleared`** — what removing sources has made of it. -/

namespace FileShell

/-! ## Copying, location by location -/

/-- **What stands at a location after sources were copied in order**: what the last of them held
that goes there, and if there is none, what stood there before. -/
def Tree.afterCopies (t : Tree) (target : Path → Path) (copied : List Path) (l : Location) :
    Option Entry :=
  copied.foldl (fun held p => if (target p).names = l then t.get? p.names else held) (t.get? l)

variable {t : Tree} {target : Path → Path} {copied : List Path} {l : Location} {p : Path}

/-- One more copy counts where it goes. -/
theorem Tree.afterCopies_concat :
    t.afterCopies target (copied ++ [p]) l =
      if (target p).names = l then t.get? p.names else t.afterCopies target copied l := by
  rw [afterCopies, List.foldl_append]
  rfl

/-- Copies that go elsewhere change nothing. -/
theorem Tree.afterCopies_append {later : List Path} (h : ∀ q ∈ later, (target q).names ≠ l) :
    t.afterCopies target (copied ++ later) l = t.afterCopies target copied l := by
  induction later generalizing copied with
  | nil => rw [List.append_nil]
  | cons q later ih =>
    rw [List.append_cons, ih fun r hr => h r (List.mem_cons_of_mem _ hr), afterCopies_concat,
      if_neg (h q List.mem_cons_self)]

/-- Where no copy goes there is what was there. -/
theorem Tree.afterCopies_eq (h : ∀ q ∈ copied, (target q).names ≠ l) :
    t.afterCopies target copied l = t.get? l := by
  have hcopies : t.afterCopies target ([] ++ copied) l = t.afterCopies target [] l :=
    afterCopies_append h
  exact hcopies

/-- What the last copy to a location has brought there. -/
theorem Tree.afterCopies_last {before later : List Path}
    (h : ∀ q ∈ later, (target q).names ≠ (target p).names) :
    t.afterCopies target (before ++ p :: later) (target p).names = t.get? p.names := by
  rw [List.append_cons, afterCopies_append h, afterCopies_concat, if_pos rfl]

variable {sources done : List Path} {v v' : Volume}

/-- A path holds what stands where it leads. -/
theorem Tree.contents?_eq_some_of_locate {c : ByteArray} (found : t.locate p = .ok l) :
    t.contents? p = some c ↔ t.get? l = some (.file c) := by
  rw [Tree.contents?_of_locate found, Outcome.toOption_eq_some, Tree.bytesAt_eq_ok]

/-- **What the sources that were copied have made of a volume**, also where no path of the run
leads. -/
structure Copied (v : Volume) (sources : List Path) (target : Path → Path) (done : List Path)
    (v' : Volume) : Prop extends Copies v.tree sources target done v' where
  /-- The same operations are refused. -/
  interference : v'.interference = v.interference
  /-- Everything is as the copies have left it, the log apart. -/
  holds : ∀ l, v.LogApart l →
    v'.LogApart l ∧ v'.tree.get? l = v.tree.afterCopies target done l
  /-- The targets of what was copied can be reached. -/
  reached : ∀ p ∈ done, v.tree.locate (target p) = .ok (target p).names

/-- Nothing has been copied at first. -/
theorem Copied.start (log : ∀ q, Involved sources target q → v.LogElsewhere q) :
    Copied v sources target [] v where
  toCopies := .start log
  interference := rfl
  holds _ h := ⟨h, rfl⟩
  reached := by simp

/-- A record changes nothing that counts. -/
theorem Copied.logged (h : Copied v sources target done v') (r : Record) :
    Copied v sources target done (v'.logged r) where
  toCopies := h.toCopies.logged r
  interference := (v'.interference_logged r).trans h.interference
  holds l hl := by
    obtain ⟨hapart, hget⟩ := h.holds l hl
    exact ⟨hapart.logged r, (Volume.get?_logged hapart r).trans hget⟩
  reached := h.reached

/-- **One more source copied.** -/
theorem Copied.copy (h : Copied v sources target done v') (plan : Planned v.tree sources target)
    (hp : p ∈ sources) (hparts : (target p).parts ≠ p.parts) {tree : Tree}
    (hcopy : v'.tree.copyFile p (target p) = .ok tree) :
    Copied v sources target (done ++ [p]) (v'.withTree tree) := by
  have copies : Copies v.tree sources target (done ++ [p]) (v'.withTree tree) :=
    h.toCopies.copy plan hp hparts hcopy
  obtain ⟨origin, goal, content, found, stands, hgoal, free, rfl⟩ := Tree.copyFile_eq_ok.1 hcopy
  have there : v'.tree.locate (target p) = .ok goal := Tree.locate_of_locateForWriting hgoal
  have linkless : v'.tree.Linkless := plan.linkless.congr h.ways
  have moves : target p ≠ p := fun heq => hparts (by rw [heq])
  obtain rfl : origin = p.names :=
    Tree.eq_names_of_locate found linkless (plan.normal p (.inl hp))
  obtain rfl : goal = (target p).names :=
    Tree.eq_names_of_locate there linkless (plan.normal _ (.inr ⟨p, hp, rfl⟩))
  have apart : (target p).names ≠ p.names := fun hnames =>
    moves ((plan.normal _ (.inr ⟨p, hp, rfl⟩)).ext (plan.normal p (.inl hp)) hnames)
  have hsource : v.tree.get? p.names = some (.file content) := by
    rw [← Tree.contents?_eq_some_of_locate ((Tree.locate_congr h.ways).2 found),
      ← h.source plan hp moves]
    exact (Tree.contents?_eq_some_of_locate found).2 stands
  rw [if_neg apart] at copies ⊢
  refine ⟨copies, h.interference, fun l hl => ?_, fun q hq => ?_⟩
  · obtain ⟨hapart, hget⟩ := h.holds l hl
    refine ⟨hapart.withTree _, ?_⟩
    rw [Volume.tree_withTree, Tree.get?_set (Tree.ne_root free), Tree.afterCopies_concat, hsource]
    by_cases hl : l = (target p).names
    · rw [if_pos hl, if_pos hl.symm]
    · rw [if_neg hl, if_neg (Ne.symm hl), hget]
  · rcases List.mem_append.1 hq with hq | hq
    · exact h.reached q hq
    · rw [List.mem_singleton.1 hq]
      exact (Tree.locate_congr h.ways).2 there

/-! ## Sources that are directories -/

/-- What is said of a directory among the sources. -/
def ignoredNotice (command : Command) (source : Path) : Text :=
  command.name ++ ": directory ".toList ++ source.shownName ++ " was ignored".toList

/-- **The console after warnings of the directories among the sources.** -/
def Console.noticed (c : Console) (command : Command) (directories : List Path) : Console :=
  { c with events := c.events ++ directories.map fun p => .warn (ignoredNotice command p) }

/-- A directory among the sources is left alone with a warning. -/
theorem copyEach_directory {command : Command} {s : State} {source : Path} {rest : List Path}
    (h : s.volume.stat source = .directory) :
    copyEach command target (source :: rest) s =
      copyEach command target rest ((s.logged .warning (ignoredNotice command source)).warned
        (ignoredNotice command source)) := by
  rw [copyEach, Shell.bind_of_ok (Shell.stat_apply source s), h]
  rfl

/-! ## Copying to the end -/

/-- **A run of copies that ends well** has copied all sources but the directories, and has warned of
these. -/
theorem copyEach_copied (command : Command) (plan : Planned v.tree sources target)
    {rest : List Path}
    (hrest : ∀ q ∈ rest, q ∈ sources) {s s' : State}
    (start : Copied v sources target done s.volume)
    (h : copyEach command target rest s = .ok copied s') :
    copied = rest.filter (v.stat · ≠ .directory) ∧
      Copied v sources target (done ++ copied) s'.volume ∧
      s'.console = s.console.noticed command (rest.filter (v.stat · = .directory)) := by
  induction rest generalizing done s copied with
  | nil =>
    cases h
    rw [List.append_nil]
    exact ⟨rfl, start, by simp [Console.noticed]⟩
  | cons source rest ih =>
    have hmem : source ∈ sources := hrest source List.mem_cons_self
    have hrest' : ∀ q ∈ rest, q ∈ sources := fun q hq => hrest q (List.mem_cons_of_mem _ hq)
    have hsame : s.volume.stat source = .directory ↔ v.stat source = .directory :=
      Volume.stat_eq_directory_congr start.ways start.interference
    rcases copyEach_cons command target source rest s with ⟨hstat, -⟩ | ⟨-, heq⟩ | ⟨hstat, heq⟩
    · rw [copyEach_directory hstat] at h
      obtain ⟨hcopied, copies, hconsole⟩ := ih hrest' (start.logged _) h
      have hdirectory : v.stat source = .directory := hsame.1 hstat
      refine ⟨by simp [hdirectory, hcopied], copies, ?_⟩
      rw [hconsole]
      simp [hdirectory, Console.noticed, State.warned, State.logged, Console.warn, Console.emit]
    · rw [heq] at h
      cases h
    · have hfile : v.stat source ≠ .directory := by
        rw [ne_eq, ← hsame, hstat]
        decide
      rw [heq] at h
      rcases copyOne_cases command source (target source) s with
        ⟨hparts, -, tree, text, hcopy, hone⟩ | ⟨-, cause, hone⟩
      · rw [Shell.bind_of_ok hone] at h
        have start' := (start.copy plan hmem hparts hcopy).logged ⟨.info, text⟩
        rcases hlater : copyEach command target rest
            ({ s with volume := s.volume.withTree tree }.logged .info text) with
          ⟨others, s₁⟩ | ⟨e, s₁⟩
        · rw [Shell.bind_of_ok hlater] at h
          cases h
          obtain ⟨hcopied, copies, hconsole⟩ := ih hrest' start' hlater
          refine ⟨by simp [hfile, hcopied], by simpa using copies, ?_⟩
          rw [hconsole]
          simp [hfile, State.logged]
        · rw [Shell.bind_of_error hlater] at h
          cases h
      · rw [Shell.bind_of_error hone] at h
        cases h

/-! ## Removing, location by location -/

/-- **What removing files has made of a volume.** -/
structure Cleared (v : Volume) (gone : List Path) (v' : Volume) : Prop where
  /-- Every path leads where it led. -/
  ways : Tree.SameWays v.tree v'.tree
  /-- The same operations are refused. -/
  interference : v'.interference = v.interference
  /-- The files are gone, and everything else is as it was, the log apart. -/
  holds : ∀ l, v.LogApart l → v'.LogApart l ∧
    v'.tree.get? l = if l ∈ gone.map Path.names then none else v.tree.get? l

theorem Cleared.refl (v : Volume) : Cleared v [] v :=
  ⟨.refl v.tree, rfl, fun _ h => ⟨h, by simp⟩⟩

/-- Files are removed one after the other. -/
theorem Cleared.cons {v'' : Volume} {gone : List Path} (h : Cleared v [p] v')
    (h' : Cleared v' gone v'') : Cleared v (p :: gone) v'' := by
  refine ⟨h.ways.trans h'.ways, h'.interference.trans h.interference, fun l hl => ?_⟩
  obtain ⟨hapart, hget⟩ := h.holds l hl
  obtain ⟨hapart', hget'⟩ := h'.holds l hapart
  refine ⟨hapart', ?_⟩
  rw [hget', hget]
  by_cases hp : l = p.names
  · simp [hp]
  · simp [hp]

/-- **A source that can be removed**: its path leads to it, it is no directory, it is not the log,
and its removal is not refused. -/
structure Removable (v : Volume) (p : Path) : Prop where
  normal : p.IsNormal
  found : v.tree.locate p = .ok p.names
  file : v.tree.get? p.names ≠ some .directory
  apart : v.LogApart p.names
  free : v.interference.refusal .removeFile p = none

/-- It can still be removed when others are gone. -/
theorem Removable.cleared {gone : List Path} (h : Removable v p) (cleared : Cleared v gone v') :
    Removable v' p where
  normal := h.normal
  found := (Tree.locate_congr cleared.ways).1 h.found
  file hdirectory := h.file ((cleared.ways.directory _).2 hdirectory)
  apart := (cleared.holds _ h.apart).1
  free := by
    rw [cleared.interference]
    exact h.free

/-- One source is removed. If it is gone already, that is recorded. -/
theorem removeEach_cons_cleared (command : Command) {s : State} (linkless : s.volume.tree.Linkless)
    (removable : Removable s.volume p) (rest : List Path) :
    ∃ s₁, removeEach command (p :: rest) s = removeEach command rest s₁ ∧
      s₁.console = s.console ∧ Cleared s.volume [p] s₁.volume := by
  rcases removeEach_cons command p rest s with ⟨-, tree, hremove, heq⟩ | ⟨why, text, heq⟩
  · obtain ⟨l, hplace, -, free, rfl⟩ := Tree.removeFile_eq_ok.1 hremove
    obtain rfl := Tree.eq_names_of_place hplace linkless removable.normal
    refine ⟨_, heq, rfl, Tree.sameWays_erase free (linkless _), rfl, fun l hl => ⟨hl.withTree _, ?_⟩⟩
    rw [Volume.tree_withTree, Tree.get?_erase (Tree.ne_root free)]
    simp
  · -- the removal has failed by itself, so nothing stood there
    obtain ⟨e, hfails⟩ := why.resolve_left fun h => h removable.free
    have hnone : s.volume.tree.get? p.names = none := by
      rcases hget : s.volume.tree.get? p.names with _ | _ | content | target
      · rfl
      · exact absurd hget removable.file
      · have hcontents : s.volume.tree.contents? p = some content :=
          Tree.contents?_eq_some.2 ⟨_, removable.found, hget⟩
        obtain ⟨tree, hremove⟩ :=
          Tree.removeFile_of_contents? hcontents linkless removable.normal
        rw [hremove] at hfails
        cases hfails
      · exact absurd hget (linkless _ _)
    refine ⟨_, heq, rfl, s.volume.sameWays_logged _, s.volume.interference_logged _,
      fun l hl => ⟨hl.logged _, ?_⟩⟩
    have hsame : (s.logged .warning text).volume.tree.get? l = s.volume.tree.get? l :=
      Volume.get?_logged hl _
    by_cases hp : l = p.names
    · rw [hp] at hsame ⊢
      simpa [hnone] using hsame
    · simpa [hp] using hsame

/-- **All sources that can be removed are.** -/
theorem removeEach_cleared (command : Command) {gone : List Path} {s : State}
    (linkless : s.volume.tree.Linkless) (removable : ∀ p ∈ gone, Removable s.volume p) :
    ∃ s', removeEach command gone s = .ok () s' ∧ s'.console = s.console ∧
      Cleared s.volume gone s'.volume := by
  induction gone generalizing s with
  | nil => exact ⟨s, rfl, rfl, .refl _⟩
  | cons p rest ih =>
    obtain ⟨s₁, heq, hconsole, hcleared⟩ :=
      removeEach_cons_cleared command linkless (removable p List.mem_cons_self) rest
    obtain ⟨s', hrun, hconsole', hcleared'⟩ := ih (linkless.congr hcleared.ways)
      fun q hq => (removable q (List.mem_cons_of_mem _ hq)).cleared hcleared
    exact ⟨s', heq.trans hrun, hconsole'.trans hconsole, hcleared.cons hcleared'⟩

/-! ## Whole runs -/

/-- **What copying and moving come to** when they end well: which sources were no directories, and
what has become of them, of their targets and of everything else. -/
structure Transferred (command : Command) (sources : List Path) (target : Path → Path)
    (s s' : State) : Prop where
  /-- No source is the target of another. -/
  apart : ∀ p ∈ sources.filter (s.volume.stat · ≠ .directory),
    ∀ q ∈ sources.filter (s.volume.stat · ≠ .directory), target q ≠ p
  /-- A target holds what the last source held that goes there. -/
  targets : ∀ before q later,
    sources.filter (s.volume.stat · ≠ .directory) = before ++ q :: later →
      (∀ p ∈ later, target p ≠ target q) →
        ∃ c, s.volume.tree.contents? q = some c ∧ s'.volume.tree.contents? (target q) = some c
  /-- Everything that is no target and no source of a move is as it was, the log apart. -/
  elsewhere : ∀ l, s.volume.LogApart l →
    (∀ p ∈ sources.filter (s.volume.stat · ≠ .directory), (target p).names ≠ l) →
      (command = .mv → ∀ p ∈ sources.filter (s.volume.stat · ≠ .directory), p.names ≠ l) →
        s'.volume.tree.get? l = s.volume.tree.get? l
  /-- The sources of a move are gone, those of a copy are left alone. -/
  own : ∀ p ∈ sources.filter (s.volume.stat · ≠ .directory),
    if command = .mv then s'.volume.stat p = .missing
    else s'.volume.tree.contents? p = s.volume.tree.contents? p
  /-- Nothing was shown but one warning for every directory among the sources, in order. -/
  console : s'.console =
    s.console.noticed command (sources.filter (s.volume.stat · = .directory))

/-- No source that was copied is the target of another. -/
theorem Copied.apart (h : Copied v sources target done v') (plan : Planned v.tree sources target)
    {p q : Path} (hp : p ∈ done) (hq : q ∈ done) : target q ≠ p := by
  intro htarget
  obtain ⟨hpmem, hmoves, -⟩ := h.copied p hp
  obtain ⟨hqmem, -, c, hc⟩ := h.copied q hq
  exact hmoves (plan.settled p hpmem q hqmem c hc htarget)

/-- A source that was copied stands where its path leads, and that is not the log. -/
theorem Copied.stands (h : Copied v sources target done v') (plan : Planned v.tree sources target)
    (log : ∀ q, Involved sources target q → v.LogElsewhere q) (hp : p ∈ done) :
    ∃ c, v.tree.locate p = .ok p.names ∧ v.tree.get? p.names = some (.file c) ∧
      v.LogApart p.names ∧ v'.tree.get? p.names = some (.file c) := by
  obtain ⟨hmem, hmoves, c, hc⟩ := h.copied p hp
  obtain ⟨l, found, hget⟩ := Tree.contents?_eq_some.1 hc
  obtain rfl := Tree.eq_names_of_locate found plan.linkless (plan.normal p (.inl hmem))
  refine ⟨c, found, hget, log p (.inl hmem) _ found, ?_⟩
  rw [← Tree.contents?_eq_some_of_locate ((Tree.locate_congr h.ways).1 found),
    h.source plan hmem hmoves, hc]

/-- **Copies, and removals of what was copied, come to a transfer.** -/
theorem Copied.transferred {command : Command} {s s' : State}
    (plan : Planned s.volume.tree sources target)
    (log : ∀ q, Involved sources target q → s.volume.LogElsewhere q)
    (h : Copied s.volume sources target (sources.filter (s.volume.stat · ≠ .directory)) v)
    (cleared : Cleared v
      (if command = .mv then sources.filter (s.volume.stat · ≠ .directory) else []) s'.volume)
    (console : s'.console =
      s.console.noticed command (sources.filter (s.volume.stat · = .directory))) :
    Transferred command sources target s s' := by
  generalize hfiles : sources.filter (s.volume.stat · ≠ .directory) = files at h cleared
  have hways : Tree.SameWays s.volume.tree s'.volume.tree := h.ways.trans cleared.ways
  have hgone {l : Location} (hl : l ∈ (if command = .mv then files else []).map Path.names) :
      command = .mv ∧ ∃ p ∈ files, p.names = l := by
    split at hl
    · next moves => exact ⟨moves, by simpa using hl⟩
    · cases hl
  constructor
  · rw [hfiles]
    exact fun p hp q hq => h.apart plan hp hq
  · rw [hfiles]
    intro before q later hsplit hlast
    have hq : q ∈ files := by simp [hsplit]
    have hmem : q ∈ sources := (h.copied q hq).1
    have reached : s.volume.tree.locate (target q) = .ok (target q).names := h.reached q hq
    obtain ⟨c, found, hget, -, -⟩ := h.stands plan log hq
    have hnormal : (target q).IsNormal := plan.normal _ (.inr ⟨q, hmem, rfl⟩)
    have hlater : ∀ p ∈ later, (target p).names ≠ (target q).names := by
      intro p hp hnames
      have hpmem : p ∈ sources := (h.copied p (by simp [hsplit, hp])).1
      exact hlast p hp ((plan.normal _ (.inr ⟨p, hpmem, rfl⟩)).ext hnormal hnames)
    obtain ⟨hapart, hcopy⟩ := h.holds _ (log _ (.inr ⟨q, hmem, rfl⟩) _ reached)
    rw [hsplit, Tree.afterCopies_last hlater, hget] at hcopy
    -- no target is among the files that are removed
    have hkept : (target q).names ∉ (if command = .mv then files else []).map Path.names := by
      intro hmoved
      obtain ⟨-, p, hp, hnames⟩ := hgone hmoved
      have hpmem : p ∈ sources := (h.copied p hp).1
      exact h.apart plan hp hq (hnormal.ext (plan.normal p (.inl hpmem)) hnames.symm)
    refine ⟨c, (Tree.contents?_eq_some_of_locate found).2 hget, ?_⟩
    rw [Tree.contents?_eq_some_of_locate ((Tree.locate_congr hways).1 reached),
      (cleared.holds _ hapart).2, if_neg hkept, hcopy]
  · rw [hfiles]
    intro l hl htargets hsources
    obtain ⟨hapart, hget⟩ := h.holds l hl
    rw [(cleared.holds l hapart).2, if_neg, hget, Tree.afterCopies_eq htargets]
    intro hmoved
    obtain ⟨moves, p, hp, hnames⟩ := hgone hmoved
    exact hsources moves p hp hnames
  · rw [hfiles]
    intro p hp
    obtain ⟨c, found, hget, hlog, hget'⟩ := h.stands plan log hp
    have found' : s'.volume.tree.locate p = .ok p.names := (Tree.locate_congr hways).1 found
    obtain ⟨hapart, -⟩ := h.holds _ hlog
    have hafter := (cleared.holds _ hapart).2
    split
    · next moves =>
      rw [if_pos moves, if_pos (List.mem_map_of_mem hp)] at hafter
      unfold Volume.stat
      split
      · rfl
      · simp [Tree.stat, found', hafter]
    · next stays =>
      rw [if_neg stays, if_neg (by simp), hget'] at hafter
      rw [(Tree.contents?_eq_some_of_locate found').2 hafter,
        (Tree.contents?_eq_some_of_locate found).2 hget]
  · exact console

/-- **A run that ends well is a transfer**, if no removal is refused. -/
theorem transferred_of_transfer {command : Command} {call : Call} {destination : Path}
    {s s' : State} {out : Text} (hpaths : call.paths = sources ++ [destination])
    (plan : Planned s.volume.tree sources (s.volume.targetOf destination))
    (log : ∀ q, Involved sources (s.volume.targetOf destination) q → s.volume.LogElsewhere q)
    (free : ∀ p, s.volume.interference.refusal .removeFile p = none)
    (h : transfer command call s = .ok out s') :
    Transferred command sources (s.volume.targetOf destination) s s' := by
  rw [transfer_eq hpaths] at h
  generalize s.volume.targetOf destination = target at plan log h ⊢
  rcases hcopy : copyEach command target sources s with ⟨copied, s₁⟩ | ⟨e, s₁⟩
  · rw [Shell.bind_of_ok hcopy] at h
    obtain ⟨rfl, copies, hconsole⟩ := copyEach_copied command plan (fun _ hp => hp)
      (.start log) hcopy
    rw [List.nil_append] at copies
    by_cases moves : command = .mv
    · have hremovable : ∀ p ∈ sources.filter (s.volume.stat · ≠ .directory),
          Removable s₁.volume p := by
        intro p hp
        obtain ⟨c, found, -, hlog, hget⟩ := copies.stands plan log hp
        refine ⟨plan.normal p (.inl (copies.copied p hp).1), (Tree.locate_congr copies.ways).1 found,
          by simp [hget], (copies.holds _ hlog).1, ?_⟩
        rw [copies.interference]
        exact free p
      obtain ⟨s₂, hremove, hconsole', hcleared⟩ :=
        removeEach_cleared command (plan.linkless.congr copies.ways) hremovable
      rw [if_pos moves, Shell.bind_of_ok hremove] at h
      cases h
      refine copies.transferred plan log ?_ (hconsole'.trans hconsole)
      rw [if_pos moves]
      exact hcleared
    · rw [if_neg moves] at h
      cases h
      refine copies.transferred plan log ?_ hconsole
      rw [if_neg moves]
      exact .refl _
  · rw [Shell.bind_of_error hcopy] at h
    cases h

/-- **Copying and moving do exactly what they say.** On a volume without links where no removal is
refused, a run that ends well has brought to each target what the last source held that goes there;
no source is a target; the sources of a move are gone, everything else is as it was, and one warning
was shown for every directory among the sources. -/
theorem transferred_exactly (env : Environment) {line : Text} {stages : List Stage} {stage : Stage}
    (parsed : env.config.parse line = .ok stages) (mem : stage ∈ stages)
    (transfers : stage.command = .cp ∨ stage.command = .mv) {piped : Option Text} {call : Call}
    {s : State} (bound : bindStage env stage piped s = .ok call s)
    (absolute : s.session.cwd.isAbsolute = true) (legal : s.volume.ShowsLegalNames)
    (linkless : s.volume.tree.Linkless)
    (free : ∀ p, s.volume.interference.refusal .removeFile p = none) :
    ∃ sources destination, call.paths = sources ++ [destination] ∧
      ((∀ p, Involved sources (s.volume.targetOf destination) p → s.volume.LogElsewhere p) →
        ∀ out s', stage.command.run env call s = .ok out s' →
          Transferred stage.command sources (s.volume.targetOf destination) s s') := by
  have suits : stage.arguments.Suits stage.command.signature :=
    ((wellRead_of_parse parsed).2.1 stage mem).arguments
  have hbind := bind_of_bindStage bound
  rw [signature_of_transfers transfers] at suits hbind
  obtain ⟨sources, destination, hpaths, hdestination, hsources, hone⟩ :=
    exists_sources_of_bind absolute legal suits hbind
  refine ⟨sources, destination, hpaths, fun log out s' hrun => ?_⟩
  have hrun : transfer stage.command call s = .ok out s' := by
    rcases transfers with heq | heq <;> rw [heq] at hrun ⊢ <;> exact hrun
  exact transferred_of_transfer hpaths (planned_of_isNormal linkless hdestination hsources hone) log
    free hrun

/-- A file and a directory are moved into a directory. -/
theorem transferred_exactly_mv :
    let tree : Tree := ⟨[([['a']], .file (Text.bytes ['x'])), ([['b']], .directory),
      ([['d']], .directory)]⟩
    let s := State.atRoot tree
    ∃ call s', bindStage .plain ⟨.mv, ⟨[], [.path ['a'] .single, .path ['b'] .single,
        .path ['d'] .single]⟩, none⟩ none s = .ok call s ∧
      Command.mv.run .plain call s = .ok [] s' ∧
      s'.volume.stat ⟨"/a".toList⟩ = .missing ∧
      s'.volume.tree.contents? ⟨"/d/a".toList⟩ = some (Text.bytes ['x']) ∧
      s'.console.events = [.warn (ignoredNotice .mv ⟨"/b".toList⟩)] := by
  intro tree s
  let stage : Stage := ⟨.mv, ⟨[], [.path ['a'] .single, .path ['b'] .single,
    .path ['d'] .single]⟩, none⟩
  let call : Call :=
    ⟨[], [.path ⟨"/a".toList⟩, .path ⟨"/b".toList⟩, .path ⟨"/d".toList⟩], none⟩
  have parsed : Environment.plain.config.parse "mv a b d".toList = .ok [stage] := by rfl
  have bound : bindStage .plain stage none s = .ok call s := by rfl
  have named : s.volume.WellNamed := ⟨by decide, nofun⟩
  have linkless : tree.Linkless := Tree.linkless_of_entries (by simp [tree])
  obtain ⟨s', hrun⟩ : ∃ s', Command.mv.run .plain call s = .ok [] s' := ⟨_, rfl⟩
  obtain ⟨sources, destination, hpaths, hexact⟩ := transferred_exactly .plain parsed
    List.mem_cons_self (.inr rfl) bound rfl named.showsLegalNames linkless fun _ => rfl
  obtain ⟨rfl, hdestination⟩ :
      [⟨"/a".toList⟩, ⟨"/b".toList⟩] = sources ∧ [⟨"/d".toList⟩] = [destination] :=
    List.append_inj' hpaths rfl
  cases hdestination
  have transferred := hexact
    (fun p _ l _ => Volume.logApart_of_log_eq_none rfl l) [] s' hrun
  have htarget : s.volume.targetOf ⟨"/d".toList⟩ ⟨"/a".toList⟩ = ⟨"/d/a".toList⟩ := by
    decide +kernel
  refine ⟨call, s', bound, hrun, transferred.own ⟨"/a".toList⟩ List.mem_cons_self, ?_,
    congrArg Console.events transferred.console⟩
  obtain ⟨c, hbefore, hafter⟩ := transferred.targets [] ⟨"/a".toList⟩ [] rfl nofun
  obtain rfl : Text.bytes ['x'] = c := Option.some.inj hbefore
  rwa [htarget] at hafter

end FileShell
