import FileShell.Proofs.Shell.Run
import FileShell.Proofs.Volume.Effects
import FileShell.Shell.Execute

/-! # What a redirection changes

A pipeline is run up to the last output first, and only then is the output delivered
(`execute_append`). So a redirection changes nothing before the end of a run, and there only where
the output goes (`execute_redirected`). -/

namespace FileShell

/-! ## Running without delivering -/

/-- **A stage run**, for its output. -/
def runStage (env : Environment) (total number : Nat) (stage : Stage) (piped : Option Text) :
    Shell Text := do
  let call ← bindStage env stage piped
  Shell.record .info (stageRecord number total stage.command)
  stage.command.run env call

/-- **Stages that feed the next one**: each runs on the output of the one before it, and the result
is what the stage behind them gets. -/
def feedStages (env : Environment) (total : Nat) :
    (number : Nat) → Option Text → List Stage → Shell (Option Text)
  | _, piped, [] => return piped
  | number, piped, stage :: rest => do
    let output ← runStage env total number stage piped
    feedStages env total (number + 1) (some output) rest

/-- The last stage of a pipeline: it runs, and its output is delivered to the file that its
redirection named before. -/
def runLast (env : Environment) (total number : Nat) (stage : Stage) (piped : Option Text) :
    Shell Unit := fun s =>
  (runStage env total number stage piped >>= fun output =>
    deliver output (stage.redirection.map s.session.sink)) s

/-- A stage bound leaves the state as it is. -/
theorem bindStage_cases (env : Environment) (stage : Stage) (piped : Option Text) (s : State) :
    (∃ call, bindStage env stage piped s = .ok call s) ∨
      ∃ e, bindStage env stage piped s = .error e s := by
  rw [bindStage, Shell.ofExcept_apply]
  split
  · next call _ => exact .inl ⟨call, rfl⟩
  · next e _ => exact .inr ⟨e, rfl⟩

/-- So a stage that was bound goes on where it was reached. -/
theorem eq_of_bindStage {env : Environment} {stage : Stage} {piped : Option Text} {s s' : State}
    {call : Call} (h : bindStage env stage piped s = .ok call s') : s' = s := by
  rcases bindStage_cases env stage piped s with ⟨_, heq⟩ | ⟨_, heq⟩
  · rw [heq] at h
    cases h
    rfl
  · rw [heq] at h
    cases h

/-- **A stage that was bound** makes its record and runs its command. -/
theorem runStage_of_bindStage {env : Environment} {stage : Stage} {piped : Option Text} {s : State}
    {call : Call} (bound : bindStage env stage piped s = .ok call s) (total number : Nat) :
    runStage env total number stage piped s =
      stage.command.run env call (s.logged .info (stageRecord number total stage.command)) := by
  rw [runStage, Shell.bind_of_ok bound, Shell.bind_of_ok (Shell.record_apply _ _ s)]

/-- A last stage is run, and its output delivered. -/
theorem runStages_singleton (env : Environment) (total number : Nat) (piped : Option Text)
    (last : Stage) (s : State) :
    runStages env total number piped [last] s = runLast env total number last piped s := by
  rw [runStages, runLast, runStage]
  rcases bindStage_cases env last piped s with ⟨call, hbind⟩ | ⟨e, hbind⟩
  · rw [bind_assoc, Shell.bind_of_ok hbind, Shell.bind_of_ok hbind, bind_assoc]
    rfl
  · rw [bind_assoc, Shell.bind_of_error hbind, Shell.bind_of_error hbind]

/-- Any other stage is run, and the stages behind it run on its output. -/
theorem runStages_cons_cons (env : Environment) (total number : Nat) (piped : Option Text)
    (stage next : Stage) (later : List Stage) (s : State) :
    runStages env total number piped (stage :: next :: later) s =
      (runStage env total number stage piped >>= fun output =>
        runStages env total (number + 1) (some output) (next :: later)) s := by
  rw [runStages, runStage]
  rcases bindStage_cases env stage piped s with ⟨call, hbind⟩ | ⟨e, hbind⟩
  · rw [bind_assoc, Shell.bind_of_ok hbind, Shell.bind_of_ok hbind, bind_assoc]
    rfl
  · rw [bind_assoc, Shell.bind_of_error hbind, Shell.bind_of_error hbind]

/-- **Stages fail** with the first of them, or after it with a later one, or with the delivery if there
is none. -/
theorem runStages_cons_eq_error {env : Environment} {total number : Nat} {piped : Option Text}
    {stage : Stage} {rest : List Stage} {s s' : State} {e : Failure} :
    runStages env total number piped (stage :: rest) s = .error e s' ↔
      runStage env total number stage piped s = .error e s' ∨
        ∃ output s₁, runStage env total number stage piped s = .ok output s₁ ∧
          (runStages env total (number + 1) (some output) rest s₁ = .error e s' ∨
            rest = [] ∧
              deliver output (stage.redirection.map s.session.sink) s₁ = .error e s') := by
  cases rest with
  | nil =>
    rw [runStages_singleton, runLast, Shell.bind_eq_error]
    simp [runStages]
  | cons next later =>
    rw [runStages_cons_cons, Shell.bind_eq_error]
    simp

/-- **Stages are run up to any one of them**, and then that one and those behind it with what it is
fed. -/
theorem runStages_append_cons (env : Environment) (total number : Nat) (piped : Option Text)
    (stages : List Stage) (next : Stage) (later : List Stage) (s : State) :
    runStages env total number piped (stages ++ next :: later) s =
      (feedStages env total number piped stages >>= fun fed =>
        runStages env total (number + stages.length) fed (next :: later)) s := by
  induction stages generalizing number piped s with
  | nil => rfl
  | cons stage stages ih =>
    -- what follows the stage is not empty, whether the given one follows or another
    obtain ⟨second, others, hrest⟩ : ∃ second others, stages ++ next :: later = second :: others :=
      List.exists_cons_of_ne_nil (by simp)
    have hnumber : number + (stage :: stages).length = number + 1 + stages.length := by
      rw [List.length_cons]
      omega
    rw [List.cons_append, hrest, runStages_cons_cons, ← hrest, feedStages, bind_assoc, hnumber]
    exact Shell.bind_congr fun output s' _ => ih (number + 1) (some output) s'

/-- **Stages are run up to the last one**, and then the last one with what it is fed. -/
theorem runStages_append (env : Environment) (total number : Nat) (piped : Option Text)
    (stages : List Stage) (last : Stage) (s : State) :
    runStages env total number piped (stages ++ [last]) s =
      (feedStages env total number piped stages >>= runLast env total (number + stages.length) last)
        s := by
  have hlast : (fun fed => runStages env total (number + stages.length) fed [last]) =
      runLast env total (number + stages.length) last :=
    funext fun fed => funext (runStages_singleton env total _ fed last)
  rw [runStages_append_cons, hlast]

/-- **A pipeline is run up to its last output first**, which is delivered then. -/
theorem execute_append (env : Environment) (stages : List Stage) (last : Stage) (s : State) :
    execute env (stages ++ [last]) s =
      (feedStages env (stages.length + 1) 1 none stages >>=
        runLast env (stages.length + 1) (stages.length + 1) last) s := by
  rw [execute, runStages_append, List.length_append, List.length_singleton, Nat.add_comm 1]

/-- A last stage fails before anything is delivered, or it has an output to deliver. -/
theorem runLast_cases (env : Environment) (total number : Nat) (stage : Stage)
    (piped : Option Text) (s : State) :
    (∃ e s', ∀ target, runLast env total number { stage with redirection := target } piped s =
        .error e s') ∨
      ∃ output s', runStage env total number stage piped s = .ok output s' ∧
        ∀ target, runLast env total number { stage with redirection := target } piped s =
          deliver output (target.map s.session.sink) s' := by
  rcases hrun : runStage env total number stage piped s with ⟨output, s'⟩ | ⟨e, s'⟩
  · exact .inr ⟨output, s', rfl, fun target => Shell.bind_of_ok hrun⟩
  · exact .inl ⟨e, s', fun target => Shell.bind_of_error hrun⟩

/-! ## Delivering -/

/-- The state after an output was shown; an empty one is not. -/
def State.shown (s : State) (output : Text) : State :=
  if output.isEmpty then s else { s with console := s.console.write output.dropFinalNewline }

/-- Without a redirection the output is shown, and nothing fails. -/
theorem deliver_none (output : Text) (s : State) :
    deliver output none s = .ok () (s.shown output) := by
  rw [deliver, State.shown]
  split <;> rfl

/-- The bytes of a file after an output went to it. -/
def redirectedBytes (old : ByteArray) (output : Text) : WriteMode → ByteArray
  | .truncate => output.bytes
  | .append => old ++ Text.bytes ['\n'] ++ output.bytes

/-- The text that goes to a file. -/
def WriteMode.delivered (mode : WriteMode) (output : Text) : Text :=
  if mode = .append then '\n' :: output else output

/-- A newline stands before what is appended. -/
theorem written_delivered (old : ByteArray) (output : Text) (mode : WriteMode) :
    Tree.written old (mode.delivered output) mode = redirectedBytes old output mode := by
  cases mode with
  | truncate => rfl
  | append =>
    change old ++ Text.bytes (['\n'] ++ output) = _
    rw [Text.bytes_append, ← ByteArray.append_assoc]
    rfl

/-- **What a run has come to whose output went to a file**, from the state before the output was
written. -/
inductive Redirected (mode : WriteMode) (path : Path) (output : Text) (s : State) :
    EStateM.Result Failure State Unit → Prop
  /-- The file holds the output, and nothing else has changed. -/
  | written {l : Location} {tree : Tree}
      (writes : (s.volume.write path (mode.delivered output) mode).1 = .ok ())
      (here : s.volume.tree.locate path = .ok l) (there : tree.locate path = .ok l)
      (content : tree.contents? path =
        some (redirectedBytes ((s.volume.tree.contents? path).getD .empty) output mode))
      (elsewhere : ∀ m, m ≠ l → tree.get? m = s.volume.tree.get? m) :
      Redirected mode path output s (.ok () { s with volume := s.volume.withTree tree })
  /-- The file cannot be written, and nothing has changed. -/
  | refused {e : FileError}
      (fails : (s.volume.write path (mode.delivered output) mode).1 = .error e) :
      Redirected mode path output s (.error (.execution (.cannotWrite path e)) s)

/-- **An output delivered to a file** changes the file alone. -/
theorem deliver_some (output : Text) (sink : Sink) (s : State) :
    Redirected sink.mode sink.path output s (deliver output (some sink) s) := by
  have hdeliver : deliver output (some sink) s =
      match (s.volume.write sink.path (sink.mode.delivered output) sink.mode) with
      | (.ok _, volume) => .ok () { s with volume }
      | (.error e, volume) => .error (.execution (.cannotWrite sink.path e)) { s with volume } := by
    rw [deliver, Shell.bind_of_ok (Shell.attempt_apply _ s), ← WriteMode.delivered]
    rcases s.volume.write sink.path (sink.mode.delivered output) sink.mode with
      ⟨_ | _, volume⟩ <;> rfl
  rw [hdeliver]
  rcases s.volume.changed_cases .write sink.path
      (s.volume.tree.write sink.path (sink.mode.delivered output) sink.mode) with
    ⟨tree, -, hwrite, heq⟩ | ⟨-, e, heq⟩
  · have hvolume : s.volume.write sink.path (sink.mode.delivered output) sink.mode = _ := heq
    obtain ⟨l, here, there, elsewhere, content⟩ := Tree.exists_of_write_eq_ok hwrite
    rw [written_delivered] at content
    rw [hvolume]
    exact .written (by rw [hvolume]) here there content elsewhere
  · have hvolume : s.volume.write sink.path (sink.mode.delivered output) sink.mode = _ := heq
    rw [hvolume]
    exact .refused (by rw [hvolume])

/-! ## The two runs -/

/-- **A redirection acts at the end of a run and only on the file it names.** Where the run fails
without it, it fails in the same state with it. Otherwise there is an output, and the redirection
sends it to the file that its word named before the last stage ran, instead of to the console. -/
theorem execute_redirected (env : Environment) (stages : List Stage) {last : Stage}
    (plain : last.redirection = none) (r : Redirection) (s : State) :
    match execute env (stages ++ [last]) s with
    | .error e s' => execute env (stages ++ [{ last with redirection := some r }]) s = .error e s'
    | .ok _ s' =>
      ∃ piped before output reached,
        feedStages env (stages.length + 1) 1 none stages s = .ok piped before ∧
        runStage env (stages.length + 1) (stages.length + 1) last piped before =
          .ok output reached ∧
        s' = reached.shown output ∧
        Redirected r.mode (before.session.resolve r.target) output reached
          (execute env (stages ++ [{ last with redirection := some r }]) s) := by
  obtain ⟨command, arguments, redirection⟩ := last
  obtain rfl : redirection = none := plain
  rw [execute_append, execute_append]
  rcases hfeed : feedStages env (stages.length + 1) 1 none stages s with ⟨piped, before⟩ | ⟨e, s'⟩
  · rw [Shell.bind_of_ok hfeed, Shell.bind_of_ok hfeed]
    rcases runLast_cases env (stages.length + 1) (stages.length + 1) ⟨command, arguments, none⟩
      piped before with ⟨e, s', hrun⟩ | ⟨output, reached, hrun, hdeliver⟩
    · rw [hrun none]
      exact hrun (some r)
    · rw [hdeliver none, hdeliver (some r), Option.map_none, deliver_none]
      exact ⟨piped, before, output, reached, rfl, hrun, rfl,
        deliver_some output (before.session.sink r) reached⟩
  · rw [Shell.bind_of_error hfeed]
    exact Shell.bind_of_error hfeed

/-- The working directory printed into a file. -/
theorem execute_redirected_pwd :
    let pwd (target : Option Redirection) : Stage := ⟨.pwd, ⟨[], []⟩, target⟩
    ∃ s', execute .plain [pwd (some ⟨.truncate, ['t']⟩)] (.atRoot .empty) = .ok () s' ∧
      s'.volume.tree.contents? ⟨['/', 't']⟩ = some (Text.bytes ['/']) := by
  intro pwd
  have h := execute_redirected .plain [] (show (pwd none).redirection = none from rfl)
    ⟨.truncate, ['t']⟩ (.atRoot .empty)
  obtain ⟨s₁, hrun⟩ : ∃ s₁, execute .plain ([] ++ [pwd none]) (.atRoot .empty) = .ok () s₁ :=
    ⟨_, rfl⟩
  rw [hrun] at h
  obtain ⟨piped, before, output, reached, hfeed, hlast, -, hred⟩ := h
  cases hfeed
  have hpwd : runStage .plain 1 1 (pwd none) none (.atRoot .empty) =
      .ok ['/'] ((State.atRoot .empty).logged .info (stageRecord 1 1 .pwd)) := rfl
  cases hpwd.symm.trans hlast
  rw [List.nil_append] at hred
  generalize execute .plain [pwd (some ⟨.truncate, ['t']⟩)] (.atRoot .empty) = result at hred ⊢
  cases hred with
  | written writes here there content elsewhere => exact ⟨_, rfl, content⟩
  | refused fails => cases fails

end FileShell
