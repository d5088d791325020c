import FileShell.Proofs.Shell.Run
import FileShell.Proofs.Volume.Effects

/-! # Copying and moving, step by step

Each equation says how a run goes on after one step of a loop, with everything that the step can
have done (`copyOne_cases`, `copyEach_cons`, `removeEach_cons`). What a whole run does is shown from
these alone.

* **`run_onto_itself`** — what becomes of a file that is copied or moved onto itself. -/

namespace FileShell

variable {command : Command} {s : State}

/-! ## The steps -/

/-- **A file is copied or not.** It is not if the target has the parts of the source or if the copy
itself fails, and then nothing has changed. -/
theorem copyOne_cases (command : Command) (source target : Path) (s : State) :
    (target.parts ≠ source.parts ∧ s.volume.interference.refusal .copyFile source = none ∧
        ∃ tree text, s.volume.tree.copyFile source target = .ok tree ∧
          copyOne command source target s =
            .ok () ({ s with volume := s.volume.withTree tree }.logged .info text)) ∨
      (target.parts = source.parts ∨ s.volume.interference.refusal .copyFile source ≠ none ∨
        ∃ e, s.volume.tree.copyFile source target = .error e) ∧
        ∃ cause, copyOne command source target s = .error (.execution cause) s := by
  unfold copyOne
  -- the guard compares the paths by their parts
  by_cases hparts : target.parts = source.parts
  · rw [if_pos hparts]
    exact .inr ⟨.inl hparts, _, rfl⟩
  · rw [if_neg hparts]
    rcases s.volume.changed_cases .copyFile source (s.volume.tree.copyFile source target) with
      ⟨tree, hrefusal, hcopy, heq⟩ | ⟨why, e, heq⟩
    · have hattempt : Shell.attempt (·.copyFile source target) s = _ := Shell.attempt_of_eq heq
      exact .inl ⟨hparts, hrefusal, tree, command.name ++ copyNote source target, hcopy,
        Shell.bind_of_ok hattempt⟩
    · have hattempt : Shell.attempt (·.copyFile source target) s = _ := Shell.attempt_of_eq heq
      exact .inr ⟨.inr why, .cannot command.name .copy source (.failed e),
        Shell.bind_of_ok hattempt⟩

/-- A directory among the sources is passed over, a missing source ends the run, and a file is
copied before the run goes on. -/
theorem copyEach_cons (command : Command) (target : Path → Path) (source : Path)
    (rest : List Path) (s : State) :
    (s.volume.stat source = .directory ∧ ∃ text,
        copyEach command target (source :: rest) s =
          copyEach command target rest ((s.logged .warning text).warned text)) ∨
      (s.volume.stat source = .missing ∧
        copyEach command target (source :: rest) s =
          .error (.execution (.cannot command.name .copy source .missing)) s) ∨
      (s.volume.stat source = .file ∧
        copyEach command target (source :: rest) s =
          (copyOne command source (target source) >>= fun _ =>
            copyEach command target rest >>= fun copied => pure (source :: copied)) s) := by
  rw [copyEach, Shell.bind_of_ok (Shell.stat_apply source s)]
  rcases s.volume.stat source with _ | _ | _
  · exact .inr (.inr ⟨rfl, rfl⟩)
  · exact .inl ⟨rfl, _, rfl⟩
  · exact .inr (.inl ⟨rfl, rfl⟩)

/-- A source is removed, or it stays and only a record is made; the run goes on in any case. -/
theorem removeEach_cons (command : Command) (source : Path) (rest : List Path) (s : State) :
    (s.volume.interference.refusal .removeFile source = none ∧ ∃ tree,
        s.volume.tree.removeFile source = .ok tree ∧
        removeEach command (source :: rest) s =
          removeEach command rest { s with volume := s.volume.withTree tree }) ∨
      (s.volume.interference.refusal .removeFile source ≠ none ∨
        ∃ e, s.volume.tree.removeFile source = .error e) ∧
        ∃ text, removeEach command (source :: rest) s =
          removeEach command rest (s.logged .warning text) := by
  rw [removeEach]
  rcases s.volume.changed_cases .removeFile source (s.volume.tree.removeFile source) with
    ⟨tree, hrefusal, hremove, heq⟩ | ⟨why, e, heq⟩
  · have hattempt : Shell.attempt (·.removeFile source) s = _ := Shell.attempt_of_eq heq
    exact .inl ⟨hrefusal, tree, hremove, Shell.bind_of_ok hattempt⟩
  · have hattempt : Shell.attempt (·.removeFile source) s = _ := Shell.attempt_of_eq heq
    exact .inr ⟨why, command.name ++ leftNote source e, Shell.bind_of_ok hattempt⟩

/-- **Where a source is copied to**, as a run finds it when it begins. -/
def Volume.targetOf (v : Volume) (destination source : Path) : Path :=
  transferTarget destination (decide (v.stat destination = .directory)) source

/-- **A run copies its sources**, then removes those that were copied if it moves them. -/
theorem transfer_eq {call : Call} {sources : List Path} {destination : Path}
    (hpaths : call.paths = sources ++ [destination]) (command : Command) (s : State) :
    transfer command call s =
      (copyEach command (s.volume.targetOf destination) sources >>= fun copied => do
        if command = .mv then removeEach command copied
        return []) s := by
  rw [transfer, hpaths, List.getLast?_concat, List.dropLast_concat]
  exact Shell.bind_of_ok (Shell.stat_apply destination s)

/-! ## A file copied onto itself -/

/-- Removing what was copied empties no place and fills none. -/
theorem removeEach_get? (command : Command) (copied : List Path) (s : State) {l : Location}
    (apart : s.volume.LogApart l) :
    ∃ s', removeEach command copied s = .ok () s' ∧
      (s'.volume.tree.get? l = s.volume.tree.get? l ∨ s'.volume.tree.get? l = none) := by
  induction copied generalizing s with
  | nil => exact ⟨s, rfl, .inl rfl⟩
  | cons source rest ih =>
    rcases removeEach_cons command source rest s with
      ⟨-, tree, hremove, heq⟩ | ⟨-, text, heq⟩
    · obtain ⟨s', hrest, hget⟩ :=
        ih { s with volume := s.volume.withTree tree } (apart.withTree tree)
      refine ⟨s', heq.trans hrest, ?_⟩
      obtain ⟨m, -, -, free, rfl⟩ := Tree.removeFile_eq_ok.1 hremove
      rcases hget with hget | hget
      · rw [hget, Volume.tree_withTree, Tree.get?_erase (Tree.ne_root free)]
        split
        · exact .inr rfl
        · exact .inl rfl
      · exact .inr hget
    · obtain ⟨s', hrest, hget⟩ := ih (s.logged .warning text) (apart.logged _)
      refine ⟨s', heq.trans hrest, ?_⟩
      rwa [State.logged, Volume.get?_logged apart] at hget

/-- **What a run notices** before it would empty a file: that the target has the parts of the
source, or that an operation on the source is refused. -/
def Notices (v : Volume) (source target : Path) : Prop :=
  target.parts = source.parts ∨ v.interference.refusal .stat source ≠ none ∨
    v.interference.refusal .copyFile source ≠ none

/-- One source that is the same file as its target is noticed before anything has changed, or it is
emptied. -/
theorem copyEach_onto_itself (command : Command) {target : Path → Path} {source : Path} {s : State}
    {l : Location} {content : ByteArray} (here : s.volume.tree.locate source = .ok l)
    (there : s.volume.tree.locate (target source) = .ok l)
    (stands : s.volume.tree.get? l = some (.file content)) (apart : s.volume.LogApart l) :
    (Notices s.volume source (target source) ∧
        ∃ cause, copyEach command target [source] s = .error (.execution cause) s) ∨
      (¬Notices s.volume source (target source) ∧
        ∃ s', copyEach command target [source] s = .ok [source] s' ∧
          s'.volume.LogApart l ∧ s'.volume.tree.get? l = some (.file .empty)) := by
  have free : s.volume.tree.get? l ≠ some .directory := by simp [stands]
  -- if the look at the source is refused, the source counts as missing
  by_cases look : s.volume.interference.refusal .stat source = none
  · have hstat : s.volume.stat source = .file :=
      Volume.stat_eq_file.2 ⟨look, content, Tree.contents?_eq_some.2 ⟨l, here, stands⟩⟩
    have hcopies := Tree.copyFile_onto_itself here there stands
    rcases copyEach_cons command target source [] s with ⟨h, -⟩ | ⟨h, -⟩ | ⟨-, heq⟩
    · rw [hstat] at h
      cases h
    · rw [hstat] at h
      cases h
    · rcases copyOne_cases command source (target source) s with
        ⟨hparts, hrefusal, tree, text, hcopy, hone⟩ | ⟨why, cause, hone⟩
      · obtain rfl := Except.ok.inj (hcopies.symm.trans hcopy)
        refine .inr ⟨by simp [Notices, hparts, look, hrefusal], _,
          heq.trans (Shell.bind_of_ok hone), (apart.withTree _).logged _, ?_⟩
        rw [State.logged, Volume.get?_logged (apart.withTree _), Volume.tree_withTree]
        exact Tree.get?_set_self _ _ (Tree.ne_root free)
      · refine .inl ⟨?_, cause, heq.trans (Shell.bind_of_error hone)⟩
        rcases why with hparts | hrefusal | ⟨e, hfails⟩
        · exact .inl hparts
        · exact .inr (.inr hrefusal)
        · rw [hcopies] at hfails
          cases hfails
  · have hstat : s.volume.stat source = .missing := Volume.stat_of_refusal look
    rcases copyEach_cons command target source [] s with ⟨h, -⟩ | ⟨-, heq⟩ | ⟨h, -⟩
    · rw [hstat] at h
      cases h
    · exact .inl ⟨.inr (.inl look), _, heq⟩
    · rw [hstat] at h
      cases h

/-- **What becomes of a file whose source and target are the same file.** The run fails and leaves
everything alone if it notices. It does not notice that two paths with different parts reach the
file in different ways; then it ends well, and the file has been emptied, or removed once it was
empty. -/
theorem run_onto_itself (env : Environment) {command : Command}
    (transfers : command = .cp ∨ command = .mv) {call : Call} {source destination : Path}
    (hpaths : call.paths = [source, destination]) {s : State} {l : Location} {content : ByteArray}
    (here : s.volume.tree.locate source = .ok l)
    (there : s.volume.tree.locate (s.volume.targetOf destination source) = .ok l)
    (stands : s.volume.tree.get? l = some (.file content)) (apart : s.volume.LogApart l) :
    (Notices s.volume source (s.volume.targetOf destination source) →
      ∃ cause, command.run env call s = .error (.execution cause) s) ∧
    (¬Notices s.volume source (s.volume.targetOf destination source) →
      ∃ s', command.run env call s = .ok [] s' ∧
        (s'.volume.tree.get? l = some (.file .empty) ∨
          command = .mv ∧ s'.volume.tree.get? l = none)) := by
  have hrun : command.run env call = transfer command call := by
    rcases transfers with rfl | rfl <;> rfl
  rw [hrun, transfer_eq (show call.paths = [source] ++ [destination] from hpaths)]
  rcases copyEach_onto_itself command here there stands apart with
    ⟨hnotices, cause, hcopy⟩ | ⟨hnotices, s₁, hcopy, apart₁, hempty⟩
  · exact ⟨fun _ => ⟨cause, Shell.bind_of_error hcopy⟩, fun h => absurd hnotices h⟩
  · refine ⟨fun h => absurd h hnotices, fun _ => ?_⟩
    rw [Shell.bind_of_ok hcopy]
    by_cases moves : command = .mv
    · obtain ⟨s₂, hremove, hget⟩ := removeEach_get? command [source] s₁ apart₁
      rw [if_pos moves]
      exact ⟨s₂, Shell.bind_of_ok hremove, hget.imp (fun h => h.trans hempty) fun h => ⟨moves, h⟩⟩
    · rw [if_neg moves]
      exact ⟨s₁, rfl, .inl hempty⟩

/-- A file and a link to it. -/
def fileAndLink : Tree := ⟨[([['a']], .file (Text.bytes ['x'])), ([['l']], .link ['a'])]⟩

/-- A file copied onto a link to it is emptied, and the run ends well. -/
theorem run_onto_itself_link :
    let call : Call := ⟨[], [.path ⟨['/', 'a']⟩, .path ⟨['/', 'l']⟩], none⟩
    ∃ s', Command.cp.run .plain call (.atRoot fileAndLink) = .ok [] s' ∧
      s'.volume.tree.get? [['a']] = some (.file .empty) := by
  intro call
  let v := (State.atRoot fileAndLink).volume
  have hpaths : call.paths = [⟨['/', 'a']⟩, ⟨['/', 'l']⟩] := rfl
  have here : v.tree.locate ⟨['/', 'a']⟩ = .ok [['a']] := rfl
  have there : v.tree.locate (v.targetOf ⟨['/', 'l']⟩ ⟨['/', 'a']⟩) = .ok [['a']] := rfl
  have stands : v.tree.get? [['a']] = some (.file (Text.bytes ['x'])) := rfl
  have unnoticed : ¬Notices v ⟨['/', 'a']⟩ (v.targetOf ⟨['/', 'l']⟩ ⟨['/', 'a']⟩) := by
    rintro (hparts | hrefusal | hrefusal)
    · exact absurd hparts (by decide +kernel)
    · exact hrefusal rfl
    · exact hrefusal rfl
  obtain ⟨s', hrun, hget⟩ := (run_onto_itself .plain (.inl rfl) hpaths here there stands
    (Volume.logApart_of_log_eq_none rfl _)).2 unnoticed
  exact ⟨s', hrun, hget.resolve_right nofun⟩

end FileShell
