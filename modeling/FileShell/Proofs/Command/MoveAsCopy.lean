import FileShell.Proofs.Command.Transfer
import FileShell.Proofs.Volume.Alike

/-! # A move as a copy and what follows it

`cp` and `mv` begin in the same way. Run from one state they stay side by side while they copy
(`copyEach_abreast`): they show and record the same but for their names, and have the same files but
for what the log says. If one of them fails so does the other one, and nothing was removed; otherwise
the move goes on to remove what was copied, and no removal makes it fail (`removeEach_unremoved`).

* **`mv_is_cp_and_removal`** — both runs compared, from any state and on any volume. -/

namespace FileShell

/-! ## What is shown and recorded -/

/-- **A run shows and records nothing but texts that begin with the name of the command.** They are
given without it. -/
structure Speaks (command : Command) (shown : List Text) (made : List Record) (s s' : State) :
    Prop where
  /-- The working directory stays. -/
  session : s'.session = s.session
  /-- Nothing is read, and warnings are all that is shown. -/
  console : s'.console = { s.console with
    events := s.console.events ++ shown.map fun t => .warn (command.name ++ t) }
  /-- The records follow the older ones. -/
  journal : s'.journal = s.journal ++ made.map fun r => ⟨r.level, command.name ++ r.text⟩

namespace Speaks

variable {command : Command} {shown : List Text} {made : List Record} {s s' : State}

theorem refl (command : Command) (s : State) : Speaks command [] [] s s where
  session := rfl
  console := by simp
  journal := by simp

/-- One run after another. -/
theorem trans {shown' : List Text} {made' : List Record} {s'' : State}
    (h : Speaks command shown made s s') (h' : Speaks command shown' made' s' s'') :
    Speaks command (shown ++ shown') (made ++ made') s s'' where
  session := h'.session.trans h.session
  console := by rw [h'.console, h.console, List.map_append, List.append_assoc]
  journal := by rw [h'.journal, h.journal, List.map_append, List.append_assoc]

/-- Files are changed in silence. -/
theorem changed (h : Speaks command shown made s s') (v : Volume) :
    Speaks command shown made s { s' with volume := v } := ⟨h.session, h.console, h.journal⟩

/-- One more record. -/
theorem logged (h : Speaks command shown made s s') (r : Record) :
    Speaks command shown (made ++ [r]) s (s'.logged r.level (command.name ++ r.text)) where
  session := h.session
  console := h.console
  journal := by
    show s'.journal ++ [_] = _
    rw [h.journal, List.map_append, List.append_assoc]
    rfl

/-- One more warning. -/
theorem warned (h : Speaks command shown made s s') (t : Text) :
    Speaks command (shown ++ [t]) made s (s'.warned (command.name ++ t)) where
  session := h.session
  console := by
    show s'.console.emit _ = _
    rw [h.console, Console.emit, List.map_append, List.append_assoc]
    rfl
  journal := h.journal

end Speaks

/-! ## Copying side by side -/

/-- The record of a source that was copied, without the name of the command. -/
def copyRecord (target : Path → Path) (source : Path) : Record :=
  ⟨.info, ": ".toList ++ source.text ++ " -> ".toList ++ (target source).text⟩

/-- **The states of a copy and of a move are abreast**: the two runs have begun in one state and have
copied the same among the sources. -/
structure Abreast (start : State) (sources : List Path) (target : Path → Path) (done : List Path)
    (s s' : State) : Prop where
  /-- The files are the same but for the log, unless that is copied. -/
  volumes : Volume.Alike (start.volume.LogNotAmong sources) s.volume s'.volume
  /-- No source has come to lead to the log. -/
  elsewhere : start.volume.LogNotAmong sources → s.volume.LogNotAmong sources
  /-- Without a log the files are the very same. -/
  logless : start.volume.log = none → s'.volume = s.volume ∧ s.volume.log = none
  /-- Nothing was removed. -/
  kept : ∀ l, start.volume.tree.get? l ≠ none → s.volume.tree.get? l ≠ none
  /-- The same was shown and recorded; the records of plain information name what was copied. -/
  spoken : ∃ shown made, Speaks .cp shown made start s ∧ Speaks .mv shown made start s' ∧
    made.filter (·.level = .info) = done.map (copyRecord target)

namespace Volume

/-- A copy removes nothing. -/
theorem get?_copyFile_ne_none {v : Volume} {l : Location} (h : v.tree.get? l ≠ none)
    (source target : Path) : (v.copyFile source target).2.tree.get? l ≠ none := by
  rcases v.changed_cases .copyFile source (v.tree.copyFile source target) with
    ⟨tree, -, hcopy, heq⟩ | ⟨-, e, heq⟩
  · obtain ⟨origin, goal, content, -, -, -, free, rfl⟩ := Tree.copyFile_eq_ok.1 hcopy
    rw [copyFile, heq, tree_withTree, Tree.get?_set (Tree.ne_root free)]
    split
    · exact Option.some_ne_none _
    · exact h
  · rw [copyFile, heq]
    exact h

/-- A record removes nothing either. -/
theorem get?_logged_ne_none {v : Volume} {l : Location} (h : v.tree.get? l ≠ none) (r : Record) :
    (v.logged r).tree.get? l ≠ none :=
  mt (((Alike.refl True v).logged_right r).tree.get?_eq_none l).1 h

end Volume

namespace Abreast

variable {start s s' : State} {sources : List Path} {target : Path → Path} {done : List Path}

theorem refl (s : State) (sources : List Path) (target : Path → Path) :
    Abreast s sources target [] s s where
  volumes := .refl _ s.volume
  elsewhere h := h
  logless h := ⟨rfl, h⟩
  kept _ h := h
  spoken := ⟨[], [], .refl .cp s, .refl .mv s, rfl⟩

/-- The same record is made but for the names, and it names what was copied or is a warning. -/
theorem logged (h : Abreast start sources target done s s') (r : Record) (done' : List Path)
    (hdone : (if r.level = .info then [r] else []) = done'.map (copyRecord target)) :
    Abreast start sources target (done ++ done') (s.logged r.level (Command.cp.name ++ r.text))
      (s'.logged r.level (Command.mv.name ++ r.text)) where
  volumes := h.volumes.logged _ _
  elsewhere apart := (h.elsewhere apart).logged _
  logless hnone := by
    obtain ⟨hsame, hlog⟩ := h.logless hnone
    have hlog' : s'.volume.log = none := hsame ▸ hlog
    refine ⟨?_, (s.volume.log_logged _).trans hlog⟩
    show s'.volume.logged _ = s.volume.logged _
    rw [Volume.logged_of_log_eq_none hlog, Volume.logged_of_log_eq_none hlog', hsame]
  kept l hl := Volume.get?_logged_ne_none (h.kept l hl) _
  spoken := by
    obtain ⟨shown, made, hcopy, hmove, hmade⟩ := h.spoken
    refine ⟨shown, made ++ [r], hcopy.logged r, hmove.logged r, ?_⟩
    rw [List.filter_append, hmade, List.map_append, ← hdone]
    by_cases hlevel : r.level = .info <;> simp [hlevel]

/-- The same warning is shown but for the names. -/
theorem warned (h : Abreast start sources target done s s') (t : Text) :
    Abreast start sources target done (s.warned (Command.cp.name ++ t))
      (s'.warned (Command.mv.name ++ t)) where
  volumes := h.volumes
  elsewhere := h.elsewhere
  logless := h.logless
  kept := h.kept
  spoken := by
    obtain ⟨shown, made, hcopy, hmove, hmade⟩ := h.spoken
    exact ⟨shown ++ [t], made, hcopy.warned t, hmove.warned t, hmade⟩

/-- The same copy is attempted. -/
theorem attempted (h : Abreast start sources target done s s') {source : Path}
    (hsource : source ∈ sources) (goal : Path) :
    Abreast start sources target done { s with volume := (s.volume.copyFile source goal).2 }
      { s' with volume := (s'.volume.copyFile source goal).2 } where
  volumes := (h.volumes.copyFile (fun apart => h.elsewhere apart source hsource) goal).2
  elsewhere apart := (h.elsewhere apart).copyFile source goal
  logless hnone := by
    obtain ⟨hsame, hlog⟩ := h.logless hnone
    exact ⟨by rw [hsame], (opensNoLog_copyFile source goal).log_eq_none hlog⟩
  kept l hl := Volume.get?_copyFile_ne_none (h.kept l hl) source goal
  spoken := by
    obtain ⟨shown, made, hcopy, hmove, hmade⟩ := h.spoken
    exact ⟨shown, made, hcopy.changed _, hmove.changed _, hmade⟩

end Abreast

/-- **How a copy and a move end side by side**: both end well, having copied the same, or both fail
for reasons that differ in the names of the commands. -/
inductive AbreastEnds {α : Type} (start : State) (sources : List Path) (target : Path → Path)
    (copied : α → List Path) :
    EStateM.Result Failure State α → EStateM.Result Failure State α → Prop
  /-- Both end well. -/
  | ok {a : α} {s s' : State} (abreast : Abreast start sources target (copied a) s s') :
    AbreastEnds start sources target copied (.ok a s) (.ok a s')
  /-- Both fail. -/
  | error {cause cause' : ExecutionError} {t : Text} {done : List Path} {s s' : State}
    (copy : cause.message = Command.cp.name ++ t) (move : cause'.message = Command.mv.name ++ t)
    (abreast : Abreast start sources target done s s') :
    AbreastEnds start sources target copied (.error (.execution cause) s) (.error (.execution cause') s')

variable {start s s' : State} {sources : List Path} {target : Path → Path} {done : List Path}

/-- The wording of a failure to copy begins with the command. -/
theorem message_cannot_copy (source : Path) (obstacle : Obstacle) : ∃ t, ∀ command : Text,
    (ExecutionError.cannot command .copy source obstacle).message = command ++ t := by
  refine ⟨": cannot ".toList ++ (Action.copy.text ++ (' ' :: source.shownName ++
    (": ".toList ++ obstacle.message))), fun command => ?_⟩
  show command ++ ": cannot ".toList ++ Action.copy.text ++ ' ' :: source.shownName ++
    ": ".toList ++ obstacle.message = _
  rw [List.append_assoc, List.append_assoc, List.append_assoc, List.append_assoc]

/-- The wording of a file that would be copied onto itself begins with the command. -/
theorem message_sameFile (source goal : Path) : ∃ t, ∀ command : Text,
    (ExecutionError.sameFile command source goal).message = command ++ t := by
  refine ⟨": ".toList ++ (source.shownName ++ (" and ".toList ++ (goal.shownName ++
    " are the same file".toList))), fun command => ?_⟩
  show command ++ ": ".toList ++ source.shownName ++ " and ".toList ++ goal.shownName ++
    " are the same file".toList = _
  rw [List.append_assoc, List.append_assoc, List.append_assoc, List.append_assoc]

/-- A failure to copy is worded alike. -/
theorem abreastEnds_cannot {α : Type} (copied : α → List Path)
    (h : Abreast start sources target done s s') (source : Path) (obstacle : Obstacle) :
    AbreastEnds start sources target copied (Shell.cannot .cp .copy source obstacle s)
      (Shell.cannot .mv .copy source obstacle s') := by
  obtain ⟨t, ht⟩ := message_cannot_copy source obstacle
  exact .error (ht Command.cp.name) (ht Command.mv.name) h

/-- A directory is passed over with a notice that begins with the command. -/
theorem ignoreDirectory_apply (source : Path) : ∃ t, ∀ (command : Command) (s : State),
    ignoreDirectory command source s =
      .ok () ((s.logged .warning (command.name ++ t)).warned (command.name ++ t)) := by
  refine ⟨": directory ".toList ++ (source.shownName ++ " was ignored".toList),
    fun command s => ?_⟩
  rw [← List.append_assoc, ← List.append_assoc]
  rfl

/-- **One file is copied** in both runs or in neither. -/
theorem copyOne_abreast (h : Abreast start sources target done s s') {source : Path}
    (hsource : source ∈ sources) :
    AbreastEnds start sources target (fun _ => done ++ [source])
      (copyOne .cp source (target source) s) (copyOne .mv source (target source) s') := by
  unfold copyOne
  by_cases hparts : (target source).parts = source.parts
  · rw [if_pos hparts, if_pos hparts]
    obtain ⟨t, ht⟩ := message_sameFile source (target source)
    exact .error (ht Command.cp.name) (ht Command.mv.name) h
  · rw [if_neg hparts, if_neg hparts]
    have hattempted := h.attempted hsource (target source)
    have hsame :=
      (h.volumes.copyFile (fun apart => h.elsewhere apart source hsource) (target source)).1
    show AbreastEnds _ _ _ _
      ((Shell.attempt (·.copyFile source (target source)) >>= _) s)
      ((Shell.attempt (·.copyFile source (target source)) >>= _) s')
    rw [Shell.bind_of_ok (Shell.attempt_apply _ s), Shell.bind_of_ok (Shell.attempt_apply _ s'),
      hsame]
    rcases (s.volume.copyFile source (target source)).1 with e | _
    · exact abreastEnds_cannot _ hattempted source (.failed e)
    · have hlogged := hattempted.logged (copyRecord target source) [source] rfl
      exact .ok hlogged

/-- **All sources are copied side by side.** -/
theorem copyEach_abreast {rest : List Path} (among : ∀ source ∈ rest, source ∈ sources)
    (h : Abreast start sources target done s s') :
    AbreastEnds start sources target (done ++ ·) (copyEach .cp target rest s)
      (copyEach .mv target rest s') := by
  induction rest generalizing done s s' with
  | nil =>
    refine .ok ?_
    rw [List.append_nil]
    exact h
  | cons source rest ih =>
    obtain ⟨hsource, hrest⟩ := List.forall_mem_cons.1 among
    rw [copyEach, copyEach, Shell.bind_of_ok (Shell.stat_apply source s),
      Shell.bind_of_ok (Shell.stat_apply source s'), h.volumes.stat]
    cases s.volume.stat source with
    | directory =>
      -- the notice is recorded and shown, and the source is passed over
      obtain ⟨t, ht⟩ := ignoreDirectory_apply source
      have hlogged := h.logged ⟨.warning, t⟩ [] rfl
      rw [List.append_nil] at hlogged
      show AbreastEnds _ _ _ _ ((ignoreDirectory _ _ >>= _) s) ((ignoreDirectory _ _ >>= _) s')
      rw [Shell.bind_of_ok (ht .cp s), Shell.bind_of_ok (ht .mv s')]
      exact ih hrest (hlogged.warned t)
    | missing => exact abreastEnds_cannot _ h source .missing
    | file =>
      have hone := copyOne_abreast h hsource
      generalize hcopy : copyOne .cp source (target source) s = r,
        hmove : copyOne .mv source (target source) s' = r' at hone
      cases hone with
      | error copy move abreast =>
        show AbreastEnds _ _ _ _ ((copyOne _ _ _ >>= _) s) ((copyOne _ _ _ >>= _) s')
        rw [Shell.bind_of_error hcopy, Shell.bind_of_error hmove]
        exact .error copy move abreast
      | @ok _ s₁ s₁' abreast =>
        show AbreastEnds _ _ _ _ ((copyOne _ _ _ >>= _) s) ((copyOne _ _ _ >>= _) s')
        rw [Shell.bind_of_ok hcopy, Shell.bind_of_ok hmove]
        have hlater := ih hrest abreast
        generalize hcopyRest : copyEach .cp target rest s₁ = r,
          hmoveRest : copyEach .mv target rest s₁' = r' at hlater
        cases hlater with
        | error copy move abreast =>
          rw [Shell.bind_of_error hcopyRest, Shell.bind_of_error hmoveRest]
          exact .error copy move abreast
        | ok abreast =>
          rw [Shell.bind_of_ok hcopyRest, Shell.bind_of_ok hmoveRest]
          rw [List.append_assoc] at abreast
          exact .ok abreast

/-- What was copied are sources, in their order. -/
theorem copyEach_sublist {command : Command} {rest copied : List Path}
    (h : copyEach command target rest s = .ok copied s') : copied.Sublist rest := by
  induction rest generalizing copied s with
  | nil =>
    cases h
    exact .refl []
  | cons source rest ih =>
    rcases copyEach_cons command target source rest s with
      ⟨-, text, heq⟩ | ⟨-, heq⟩ | ⟨-, heq⟩
    · rw [heq] at h
      exact (ih h).cons source
    · rw [heq] at h
      cases h
    · rw [heq] at h
      rcases hone : copyOne command source (target source) s with ⟨_, s₁⟩ | ⟨e, s₁⟩
      · rw [Shell.bind_of_ok hone] at h
        rcases hrest : copyEach command target rest s₁ with ⟨later, s₂⟩ | ⟨e, s₂⟩
        · rw [Shell.bind_of_ok hrest] at h
          cases h
          exact (ih hrest).cons_cons source
        · rw [Shell.bind_of_error hrest] at h
          cases h
      · rw [Shell.bind_of_error hone] at h
        cases h

/-! ## Removing -/

/-- **The volume after an attempt to remove each of some files**, in order, whether it fails or
not. -/
def Volume.removeFiles (v : Volume) (files : List Path) : Volume :=
  files.foldl (fun v file => (v.removeFile file).2) v

/-- **The attempts that fail among these**, with their reasons. -/
def Volume.unremoved : Volume → List Path → List (Path × FileError)
  | _, [] => []
  | v, file :: rest =>
    let later := (v.removeFile file).2.unremoved rest
    match (v.removeFile file).1 with
    | .ok _ => later
    | .error e => (file, e) :: later

/-- The record of a source that was copied and is still there, without the name of the command. -/
def leftRecord (left : Path × FileError) : Record :=
  ⟨.warning, ": copied ".toList ++ left.1.text ++ " but could not remove it: ".toList ++
    left.2.message⟩

/-- **No removal makes the run fail**, and each one that fails itself leaves a record. -/
theorem removeEach_unremoved (command : Command) {spared logless : Prop} (copied : List Path)
    {v : Volume} {s : State} (alike : Volume.Alike spared v s.volume)
    (same : logless → s.volume = v ∧ v.log = none) :
    ∃ s', removeEach command copied s = .ok () s' ∧
      Volume.Alike spared (v.removeFiles copied) s'.volume ∧
      (logless → s'.volume = v.removeFiles copied) ∧
      Speaks command [] ((v.unremoved copied).map leftRecord) s s' := by
  induction copied generalizing v s with
  | nil => exact ⟨s, rfl, alike, fun held => (same held).1, .refl command s⟩
  | cons source rest ih =>
    -- the attempt comes to the same on the volume and in the run
    obtain ⟨houtcome, hremoved⟩ := alike.removeFile source
    have hsame (held : logless) : (s.volume.removeFile source).2 = (v.removeFile source).2 ∧
        (v.removeFile source).2.log = none :=
      ⟨by rw [(same held).1], (opensNoLog_removeFile source).log_eq_none (same held).2⟩
    let s₁ : State := { s with volume := (s.volume.removeFile source).2 }
    have hsilent : Speaks command [] [] s s₁ := (Speaks.refl command s).changed _
    rw [removeEach, Shell.bind_of_ok (Shell.attempt_apply _ s), houtcome, Volume.unremoved]
    show ∃ s', _ ∧ Volume.Alike spared ((v.removeFile source).2.removeFiles rest) _ ∧
      (logless → _ = (v.removeFile source).2.removeFiles rest) ∧ _
    generalize v.removeFile source = attempt at hremoved hsame ⊢
    rcases attempt with ⟨e | _, v'⟩
    · -- the source is still there, and a record says so
      have hrecord := hsilent.logged (leftRecord (source, e))
      let s₂ := s₁.logged .warning (command.name ++ leftNote source e)
      have hrun : Shell.record .warning (command.name ++ leftNote source e) s₁ = .ok () s₂ :=
        Shell.record_apply _ _ s₁
      have hlogged (held : logless) : s₂.volume = v' ∧ v'.log = none := by
        obtain ⟨hvolume, hlog⟩ := hsame held
        show s₁.volume.logged _ = v' ∧ _
        rw [show s₁.volume = v' from hvolume, Volume.logged_of_log_eq_none hlog]
        exact ⟨rfl, hlog⟩
      obtain ⟨s', hrest, hvolume, hexact, hspeaks⟩ := ih (hremoved.logged_right _) hlogged
      exact ⟨s', (Shell.bind_of_ok hrun).trans hrest, hvolume, hexact, hrecord.trans hspeaks⟩
    · obtain ⟨s', hrest, hvolume, hexact, hspeaks⟩ := ih (s := s₁) hremoved hsame
      exact ⟨s', hrest, hvolume, hexact, hsilent.trans hspeaks⟩

/-! ## Whole runs -/

/-- **A move is a copy, after which an attempt is made to remove each source that was copied.** Run
from one state, both fail or neither does. If they fail, they do so for the same kind of reason, with
the same message, warnings and records but for their names, with the same files, and nothing was
removed. If they do not, a move has warned and recorded what a copy has, and then made one record for
each attempt at a removal that has failed; its files are those of the copy after these attempts. The
files are the very same where no log is open. Where one is, it says `mv` in place of `cp`, and all
other entries are the same unless the log itself was a source. -/
theorem mv_is_cp_and_removal (env : Environment) (call : Call) (s : State) :
    (∃ failure failure' text shown made s₁ s₂,
      Command.cp.run env call s = .error failure s₁ ∧
      Command.mv.run env call s = .error failure' s₂ ∧
      failure'.label = failure.label ∧ failure.message = Command.cp.name ++ text ∧
      failure'.message = Command.mv.name ++ text ∧
      Speaks .cp shown made s s₁ ∧ Speaks .mv shown made s s₂ ∧
      Volume.Alike (s.volume.LogNotAmong call.paths.dropLast) s₁.volume s₂.volume ∧
      (s.volume.log = none → s₂.volume = s₁.volume) ∧
      ∀ l, s.volume.tree.get? l ≠ none → s₂.volume.tree.get? l ≠ none) ∨
    ∃ destination copied shown made s₁ s₂,
      Command.cp.run env call s = .ok [] s₁ ∧
      Command.mv.run env call s = .ok [] s₂ ∧
      call.paths.getLast? = some destination ∧ copied.Sublist call.paths.dropLast ∧
      made.filter (·.level = .info) =
        copied.map (copyRecord (s.volume.targetOf destination)) ∧
      Speaks .cp shown made s s₁ ∧
      Speaks .mv shown (made ++ (s₁.volume.unremoved copied).map leftRecord) s s₂ ∧
      Volume.Alike (s.volume.LogNotAmong call.paths.dropLast) (s₁.volume.removeFiles copied)
        s₂.volume ∧
      (s.volume.log = none → s₂.volume = s₁.volume.removeFiles copied) := by
  show (∃ failure failure' text shown made s₁ s₂, transfer .cp call s = _ ∧
    transfer .mv call s = _ ∧ _) ∨ ∃ destination copied shown made s₁ s₂,
      transfer .cp call s = _ ∧ transfer .mv call s = _ ∧ _
  rcases hlast : call.paths.getLast? with _ | destination
  · -- without a path nothing is done
    have hfails (command : Command) : transfer command call s =
        .error (.argument (.missingDestination command.name)) s := by
      rw [transfer, hlast]
      rfl
    exact .inl ⟨_, _, ": missing destination".toList, [], [], s, s, hfails .cp, hfails .mv, rfl,
      rfl, rfl, .refl .cp s, .refl .mv s, .refl _ s.volume, fun _ => rfl, fun _ h => h⟩
  · obtain ⟨sources, hpaths⟩ : ∃ sources, call.paths = sources ++ [destination] :=
      ⟨_, (List.dropLast_append_getLast? destination hlast).symm⟩
    have hsources : call.paths.dropLast = sources := by rw [hpaths, List.dropLast_concat]
    rw [hsources]
    let target := s.volume.targetOf destination
    have hcopying := copyEach_abreast (fun _ hmem => hmem) (Abreast.refl s sources target)
    rw [transfer_eq hpaths, transfer_eq hpaths]
    generalize hcopy : copyEach .cp target sources s = r,
      hmove : copyEach .mv target sources s = r' at hcopying
    cases hcopying with
    | error copy move abreast =>
      obtain ⟨shown, made, hcp, hmv, -⟩ := abreast.spoken
      exact .inl ⟨_, _, _, shown, made, _, _, Shell.bind_of_error hcopy,
        Shell.bind_of_error hmove, rfl, copy, move, hcp, hmv, abreast.volumes,
        fun hlog => (abreast.logless hlog).1,
        fun l hl => mt (abreast.volumes.tree.get?_eq_none l).1 (abreast.kept l hl)⟩
    | @ok copied s₁ s₁' abreast =>
      obtain ⟨shown, made, hcp, hmv, hmade⟩ := abreast.spoken
      obtain ⟨s₂, hremove, hvolume, hexact, hspeaks⟩ :=
        removeEach_unremoved .mv copied abreast.volumes abreast.logless
      refine .inr ⟨destination, copied, shown, made, s₁, s₂, ?_, ?_, rfl, copyEach_sublist hcopy,
        hmade, hcp, ?_, hvolume, hexact⟩
      · exact Shell.bind_of_ok hcopy
      · rw [Shell.bind_of_ok hmove, if_pos rfl]
        exact Shell.bind_of_ok hremove
      · have hwhole := hmv.trans hspeaks
        rw [List.append_nil] at hwhole
        exact hwhole

end FileShell
