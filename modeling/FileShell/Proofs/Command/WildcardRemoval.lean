import FileShell.Proofs.Command.Remove
import FileShell.Proofs.Command.Transferred
import FileShell.Proofs.Shell.Redirection
import FileShell.Proofs.Volume.Thinned

/-! # Removing what wildcards match

A wildcard that leaves out directories is expanded before anything is removed, and what it matches
is looked at again when its turn comes. In between only files and links go, so a path that was no
directory when the wildcard was expanded is none later, and no directory is ever removed
(`wildcards_remove_files`).

* **`Volume.Thinned`** — a volume that has lost files and links.
* **`Volume.EmptiedAt`** — a volume that has lost just what stood at the places of some paths.
* **`removeOperands_files`** — what becomes of operands that are no directories. -/

namespace FileShell

variable {v v₁ v' v'' : Volume} {p : Path} {rest paths : List Path} {l : Location}
  {command : Command} {recursive : Bool} {s : State}

namespace Volume

/-! ## Volumes without some of their files and links -/

/-- **A volume that has lost files and links**, and nothing else. -/
structure Thinned (v v' : Volume) : Prop where
  /-- So has its tree. -/
  tree : Tree.Thinned v.tree v'.tree
  /-- The same operations are refused. -/
  interference : v'.interference = v.interference

theorem Thinned.trans (h : Thinned v v') (h' : Thinned v' v'') : Thinned v v'' :=
  ⟨h.tree.trans h'.tree, h'.interference.trans h.interference⟩

/-- Where nothing but records lies in between nothing was lost. -/
theorem Untouched.thinned (h : Untouched v v') : Thinned v v' :=
  ⟨h.ways.thinned fun l hnone => (h.present l).2 hnone, h.interference⟩

theorem Thinned.refl (v : Volume) : Thinned v v := (Untouched.refl v).thinned

/-- A record loses nothing. -/
theorem Thinned.logged (h : Thinned v v') (r : Record) : Thinned v (v'.logged r) :=
  h.trans ((Untouched.refl v').logged r).thinned

/-- **What is found to be a directory was one before.** -/
theorem Thinned.stat_eq_directory (h : Thinned v v') (hstat : v'.stat p = .directory) :
    v.stat p = .directory := by
  unfold Volume.stat at hstat ⊢
  rw [h.interference] at hstat
  split at hstat
  · cases hstat
  · obtain ⟨l, hlocate, hget⟩ := Tree.stat_eq_directory.1 hstat
    have stands : v'.tree.get? l ≠ none := by simp [hget]
    exact Tree.stat_eq_directory.2
      ⟨l, h.tree.locate hlocate stands, (h.tree.directory l).2 hget⟩

/-! ## Places that were emptied -/

/-- **A volume that has lost just what stood at the places of some paths**: a link on the way to
such a place was followed, and a link there was lost itself. -/
structure EmptiedAt (paths : List Path) (v v' : Volume) : Prop where
  /-- No path is named twice. -/
  nodup : paths.Nodup
  /-- Each of them has its place. -/
  placed : ∀ p ∈ paths, ∃ l, v.tree.place p = .ok (l, .name)
  /-- What stood there is all that is gone. -/
  gone : ∀ l, v.tree.get? l ≠ none ∧ v'.tree.get? l = none ↔
    ∃ p ∈ paths, v.tree.place p = .ok (l, .name)

/-- Nothing is lost when nothing is named. -/
theorem EmptiedAt.nil (v : Volume) : EmptiedAt [] v v where
  nodup := .nil
  placed := nofun
  gone l := by simp

/-- **Paths keep their places** in a volume that has lost something else. -/
theorem EmptiedAt.place_iff (h : EmptiedAt paths v₁ v') (thinned : Thinned v v₁) (hp : p ∈ paths) :
    v₁.tree.place p = .ok (l, .name) ↔ v.tree.place p = .ok (l, .name) := by
  refine ⟨thinned.tree.place, fun hplace => ?_⟩
  obtain ⟨m, hm⟩ := h.placed p hp
  obtain ⟨rfl, -⟩ := Prod.mk.inj (Except.ok.inj (hplace.symm.trans (thinned.tree.place hm)))
  exact hm

/-- Records before the first loss count for nothing. -/
theorem EmptiedAt.of_untouched (h : EmptiedAt paths v₁ v') (before : Untouched v v₁) :
    EmptiedAt paths v v' where
  nodup := h.nodup
  placed q hq := (h.placed q hq).imp fun _ => before.thinned.tree.place
  gone l := by
    rw [ne_eq, ← before.present l]
    refine (h.gone l).trans (exists_congr fun q => and_congr_right fun hq => ?_)
    exact h.place_iff before.thinned hq

/-- **One more path in front**, whose place is emptied first. -/
theorem EmptiedAt.cons (hplace : v.tree.place p = .ok (l, .name)) (stands : v.tree.get? l ≠ none)
    (first : Thinned v v₁) (hfirst : ∀ m, v₁.tree.get? m = none ↔ m = l ∨ v.tree.get? m = none)
    (h : EmptiedAt rest v₁ v') (later : Thinned v₁ v') : EmptiedAt (p :: rest) v v' where
  nodup := by
    refine List.nodup_cons.2 ⟨fun hp => ?_, h.nodup⟩
    -- the place would have to be emptied again
    have hagain := (h.gone l).2 ⟨p, hp, (h.place_iff first hp).2 hplace⟩
    exact hagain.1 ((hfirst l).2 (.inl rfl))
  placed := by
    intro q hq
    rcases List.mem_cons.1 hq with rfl | hq
    · exact ⟨l, hplace⟩
    · exact (h.placed q hq).imp fun _ => first.tree.place
  gone := by
    intro m
    constructor
    · rintro ⟨hm, hgone⟩
      by_cases hearly : v₁.tree.get? m = none
      · obtain rfl : m = l := ((hfirst m).1 hearly).resolve_right hm
        exact ⟨p, List.mem_cons_self, hplace⟩
      · obtain ⟨q, hq, hplace'⟩ := (h.gone m).1 ⟨hearly, hgone⟩
        exact ⟨q, List.mem_cons_of_mem _ hq, first.tree.place hplace'⟩
    · rintro ⟨q, hq, hplace'⟩
      rcases List.mem_cons.1 hq with rfl | hq
      · obtain ⟨rfl, -⟩ := Prod.mk.inj (Except.ok.inj (hplace.symm.trans hplace'))
        exact ⟨stands, later.tree.vacant _ ((hfirst _).2 (.inl rfl))⟩
      · obtain ⟨hm, hgone⟩ := (h.gone m).2 ⟨q, hq, (h.place_iff first hq).2 hplace'⟩
        exact ⟨fun hnone => hm ((hfirst m).2 (.inr hnone)), hgone⟩

end Volume

/-! ## What wildcards match -/

/-- **Nothing is a directory that a wildcard matches** if it leaves these out. -/
theorem stat_ne_directory_of_expand {session : Session} {word : Text}
    (h : session.expand v .filesOnly word = .ok paths) : ∀ p ∈ paths, v.stat p ≠ .directory := by
  obtain ⟨-, names, -, rfl⟩ := Session.expand_eq_ok_iff.1 h
  intro p hp
  simpa [Session.inScope] using (List.mem_filter.1 hp).2

/-- Nor is anything that an operand stands for, if it is such a wildcard. -/
theorem stat_ne_directory_of_pathsOf {session : Session} {word : Text}
    (hp : p ∈ session.pathsOf v .filesOnly (.path word .wildcard)) : v.stat p ≠ .directory := by
  rw [Session.pathsOf] at hp
  split at hp
  · next paths hpaths => exact stat_ne_directory_of_expand hpaths p hp
  · cases hp

/-! ## Operands that are no directories -/

/-- **An operand that is no directory** is removed from its place, or the run fails and nothing has
changed. -/
theorem removeOne_of_ne_directory (command : Command) (recursive : Bool)
    (h : s.volume.stat p ≠ .directory) :
    (∃ l, s.volume.tree.place p = .ok (l, .name) ∧ s.volume.tree.get? l ≠ none ∧
        s.volume.tree.get? l ≠ some .directory ∧ removeOne command recursive p s =
          .ok () { s with volume := s.volume.withTree (s.volume.tree.erase l) }) ∨
      ∃ e, removeOne command recursive p s = .error e s := by
  rw [removeOne, Shell.bind_of_ok (Shell.stat_apply p s)]
  rcases hstat : s.volume.stat p with _ | _ | _
  · by_cases hcommand : command = .rmdir
    · rw [if_pos hcommand]
      exact .inr ⟨_, rfl⟩
    · rw [if_neg hcommand]
      rcases removeWith_cases command p (·.removeFile p) rfl with ⟨tree, hremove, heq⟩ | ⟨e, heq⟩
      · obtain ⟨l, hplace, stands, free, rfl⟩ := Tree.removeFile_eq_ok.1 hremove
        exact .inl ⟨l, hplace, stands, free, heq⟩
      · exact .inr ⟨e, heq⟩
  · exact absurd hstat h
  · exact .inr ⟨_, rfl⟩

/-- **Operands that are no directories** are removed without a question, and no directory goes
along. If the run ends well, it has removed what stood at their places. -/
theorem removeOperands_files (command : Command) (recursive : Bool) {paths : List Path}
    (files : ∀ p ∈ paths, s.volume.stat p ≠ .directory) :
    s.volume.Thinned (Shell.reached (removeOperands command recursive paths s)).volume ∧
      (Shell.reached (removeOperands command recursive paths s)).console = s.console ∧
      ∀ s', removeOperands command recursive paths s = .ok () s' →
        s.volume.EmptiedAt paths s'.volume := by
  induction paths generalizing s with
  | nil =>
    refine ⟨.refl _, rfl, ?_⟩
    intro s' h
    cases h
    exact .nil _
  | cons p rest ih =>
    rcases removeOne_of_ne_directory command recursive (files p List.mem_cons_self) with
      ⟨l, hplace, stands, free, hone⟩ | ⟨e, hone⟩
    · let erased := s.volume.withTree (s.volume.tree.erase l)
      let s₁ := ({ s with volume := erased } : State).logged .info (removalText command p)
      have hstep : removeOperands command recursive (p :: rest) s =
          removeOperands command recursive rest s₁ := by
        rw [removeOperands, Shell.bind_of_ok hone]
        rfl
      have herased : s.volume.Thinned erased := ⟨Tree.thinned_erase free, rfl⟩
      have first : s.volume.Thinned s₁.volume := herased.logged _
      have hfirst : ∀ m, s₁.volume.tree.get? m = none ↔ m = l ∨ s.volume.tree.get? m = none := by
        intro m
        refine Volume.get?_logged_eq_none.trans ?_
        rw [Volume.tree_withTree, Tree.get?_erase (Tree.ne_root free)]
        by_cases hm : m = l <;> simp [hm]
      -- what was no directory is still none
      have files₁ : ∀ q ∈ rest, s₁.volume.stat q ≠ .directory := by
        intro q hq hdirectory
        exact files q (List.mem_cons_of_mem _ hq) (first.stat_eq_directory hdirectory)
      obtain ⟨later, hconsole, hends⟩ := ih files₁
      rw [hstep]
      refine ⟨first.trans later, hconsole, ?_⟩
      intro s' hrest
      rw [hrest] at later
      exact .cons hplace stands first hfirst (hends s' hrest) later
    · have hstep : removeOperands command recursive (p :: rest) s = .error e s := by
        rw [removeOperands, Shell.bind_of_error hone]
      rw [hstep]
      refine ⟨.refl _, rfl, ?_⟩
      intro s' h
      cases h

/-! ## Whole stages -/

/-- **Removing what wildcards match only removes files and links**, whatever links there are and
with the option for directories or without it. If the wildcards leave out directories, then no
directory is removed and nothing is asked or shown, whichever way the stage ends. If it ends well,
it has removed just what stood at the places of the paths that the wildcards matched, and no path
was matched twice. -/
theorem wildcards_remove_files (env : Environment) {stage : Stage} (removes : stage.command = .rm)
    (filesOnly : env.config.matchScope stage.command.name = .filesOnly)
    (wildcards : ∀ operand ∈ stage.arguments.operands, ∃ word, operand = .path word .wildcard)
    (total number : Nat) (piped : Option Text) (s : State) :
    let after := Shell.reached (runStage env total number stage piped s)
    (∀ l, s.volume.tree.get? l = some .directory → after.volume.tree.get? l = some .directory) ∧
      after.console = s.console ∧
      ∀ out s', runStage env total number stage piped s = .ok out s' →
        ∃ call, bindStage env stage piped s = .ok call s ∧
          call.paths =
            stage.arguments.operands.flatMap (s.session.pathsOf s.volume .filesOnly) ∧
          s.volume.EmptiedAt call.paths s'.volume := by
  intro after
  rcases bindStage_cases env stage piped s with ⟨call, hbind⟩ | ⟨e, hbind⟩
  · let s₁ := s.logged .info (stageRecord number total stage.command)
    have recorded : s.volume.Untouched s₁.volume := (Volume.Untouched.refl _).logged _
    have hpaths : call.paths =
        stage.arguments.operands.flatMap (s.session.pathsOf s.volume .filesOnly) := by
      have hpaths := paths_of_bind (bind_of_bindStage hbind)
      rwa [filesOnly] at hpaths
    have files : ∀ p ∈ call.paths, s₁.volume.stat p ≠ .directory := by
      intro p hp hdirectory
      rw [hpaths] at hp
      obtain ⟨operand, hoperand, hp⟩ := List.mem_flatMap.1 hp
      obtain ⟨word, rfl⟩ := wildcards operand hoperand
      exact stat_ne_directory_of_pathsOf hp (recorded.thinned.stat_eq_directory hdirectory)
    have hrun : runStage env total number stage piped s = stage.command.run env call s₁ :=
      Shell.bind_of_ok hbind
    have hafter : after = Shell.reached (removeOperands stage.command
        (call.has Command.recursiveOption) call.paths s₁) := by
      rw [← reached_run_remove env (.inl removes), ← hrun]
    obtain ⟨thinned, hconsole, hends⟩ := removeOperands_files stage.command
      (call.has Command.recursiveOption) files
    rw [← hafter] at thinned hconsole
    refine ⟨fun l hl => ?_, hconsole, fun out s' h => ⟨call, hbind, hpaths, ?_⟩⟩
    · exact ((recorded.thinned.trans thinned).tree.directory l).1 hl
    · rw [hrun, removes] at h
      rcases hoperands : removeOperands .rm (call.has Command.recursiveOption) call.paths s₁ with
        ⟨⟨⟩, s₂⟩ | ⟨e, s₂⟩
      · have hend : Command.rm.run env call s₁ = .ok [] s₂ := Shell.bind_of_ok hoperands
        rw [hend] at h
        cases h
        rw [removes] at hends
        exact (hends s' hoperands).of_untouched recorded
      · have hend : Command.rm.run env call s₁ = .error e s₂ := Shell.bind_of_error hoperands
        rw [hend] at h
        cases h
  · have hrun : runStage env total number stage piped s = .error e s := Shell.bind_of_error hbind
    have hafter : after = s := by
      change Shell.reached (runStage env total number stage piped s) = s
      rw [hrun]
      rfl
    rw [hafter, hrun]
    exact ⟨fun l hl => hl, rfl, nofun⟩

/-- A link to a file is removed, and the file stays, as does a directory that has a name of the same
kind. -/
theorem wildcards_remove_files_link :
    let tree : Tree := ⟨[([['b']], .file .empty), (["d.x".toList], .directory),
      (["l.x".toList], .link ['b'])]⟩
    let s := State.atRoot tree
    let stage : Stage :=
      ⟨.rm, ⟨[Command.recursiveOption], [.path "*.x".toList .wildcard]⟩, none⟩
    ∃ out s', runStage .plain 1 1 stage none s = .ok out s' ∧
      s'.volume.tree.get? ["l.x".toList] = none ∧ s'.volume.tree.get? [['b']] ≠ none ∧
      s'.volume.tree.get? ["d.x".toList] = some .directory := by
  intro tree s stage
  have wildcards : ∀ operand ∈ stage.arguments.operands,
      ∃ word, operand = .path word .wildcard := by
    intro operand hoperand
    exact ⟨_, List.mem_singleton.1 hoperand⟩
  have hwell : (match runStage .plain 1 1 stage none s with
      | .ok _ _ => true
      | .error _ _ => false) = true := by decide +kernel
  have hmatched : stage.arguments.operands.flatMap (s.session.pathsOf s.volume .filesOnly) =
      [⟨"/l.x".toList⟩] := by decide +kernel
  have hplaces : s.volume.tree.place ⟨"/l.x".toList⟩ = .ok (["l.x".toList], .name) := by
    decide +kernel
  obtain ⟨hdirectories, -, hends⟩ :=
    @wildcards_remove_files .plain stage rfl rfl wildcards 1 1 none s
  rcases hrun : runStage .plain 1 1 stage none s with ⟨out, s'⟩ | ⟨e, s'⟩
  · obtain ⟨call, -, hpaths, emptied⟩ := hends out s' hrun
    rw [hpaths.trans hmatched] at emptied
    rw [hrun] at hdirectories
    refine ⟨out, s', rfl, ?_, ?_, hdirectories ["d.x".toList] rfl⟩
    · exact ((emptied.gone ["l.x".toList]).2 ⟨_, List.mem_singleton_self _, hplaces⟩).2
    · intro hgone
      obtain ⟨p, hp, hplace⟩ := (emptied.gone [['b']]).1 ⟨nofun, hgone⟩
      rw [List.mem_singleton.1 hp, hplaces] at hplace
      cases hplace
  · rw [hrun] at hwell
    cases hwell

end FileShell
