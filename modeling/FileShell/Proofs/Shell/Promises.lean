import FileShell.Proofs.Shell.Failures

/-! # What a command can rely on

What reading a line has checked still holds when a stage of it is bound and run. A command is called
with one operand for each operand of its stage, and each is what the signature asks for at its
position (`Call.Serves`). So the commands never meet the calls that they guard against
(`promises_of_parse`). -/

namespace FileShell

/-- **What a call owes to the stage** that it was bound for in a session. -/
structure Call.Serves (session : Session) (stage : Stage) (call : Call) : Prop where
  /-- The options are those that were given. -/
  options : call.options = stage.arguments.options
  /-- There is one operand for every operand. -/
  length : call.operands.length = stage.arguments.operands.length
  /-- Each is what the requirement of its position asks for. -/
  operands : ∀ (i : Nat) (operand : Operand) (bound : Bound),
    stage.arguments.operands[i]? = some operand → call.operands[i]? = some bound →
      Bound.Serves session
        (stage.command.signature.requirement i stage.arguments.operands.length) operand bound
  /-- For a command that copies or moves, the last path is the last operand's, and at least one
  source stands before it. -/
  destination : stage.command = .cp ∨ stage.command = .mv → ∃ word sources,
    stage.arguments.operands.getLast? = some (.path word .single) ∧ sources ≠ [] ∧
      call.paths = sources ++ [session.resolve word]
  /-- A listing of an operand is one of a path. -/
  listed : stage.command = .ls → ∀ bound ∈ call.operands.head?, bound.paths ≠ []

variable {env : Environment} {stage : Stage} {piped : Option Text} {s s' : State} {call : Call}

/-- **A call serves the stage that it was bound for.** -/
theorem serves_of_bindStage (suits : stage.arguments.Suits stage.command.signature)
    (h : bindStage env stage piped s = .ok call s') : call.Serves s.session stage := by
  have hbind := bind_of_bindStage h
  obtain ⟨hoptions, hlength, hserves⟩ := serves_of_bind suits hbind
  refine ⟨hoptions, hlength, hserves, fun transfers => ?_, fun lists bound hhead => ?_⟩
  · rw [signature_of_transfers transfers] at suits hbind
    obtain ⟨init, word, sources, hinit, hoperands, hne⟩ := exists_destination_of_bind suits hbind
    refine ⟨word, sources.flatMap Bound.paths, by rw [hinit, List.getLast?_concat], hne, ?_⟩
    simp [Call.paths, hoperands]
  · have hsignature : stage.command.signature = .uniform 0 (some 1) .singleOrWildcard := by
      rw [lists]
      rfl
    have hfirst : call.operands[0]? = some bound := by simpa [List.head?_eq_getElem?] using hhead
    have hpos : 0 < stage.arguments.operands.length := by
      rw [← hlength]
      exact (List.getElem?_eq_some_iff.1 hfirst).1
    have hserves := hserves 0 _ bound (List.getElem?_eq_getElem hpos) hfirst
    rw [hsignature, Signature.requirement_uniform] at hserves
    exact hserves.paths_ne_nil (by decide)

/-- **What reading a line has checked can be relied on later.** A line that is read has stages whose
commands can be called, whose arguments fit, and only the last of which is redirected, to a single
path. Whenever one of them is bound, the call serves it; and in an absolute working directory, on a
volume that shows legal names, all its paths are normal. So no line ever fails for a missing
destination. -/
theorem promises_of_parse (env : Environment) (line : Text) :
    (∀ stages, env.config.parse line = .ok stages →
      stages ≠ [] ∧ (∀ stage ∈ stages, stage.WellRead env.config) ∧
      (∀ stage ∈ stages.dropLast, stage.redirection = none) ∧
      ∀ stage ∈ stages, ∀ piped s call s', bindStage env stage piped s = .ok call s' →
        call.Serves s.session stage ∧
        (s.session.cwd.isAbsolute = true → s.volume.ShowsLegalNames →
          (∀ p ∈ call.paths, p.IsNormal ∧ p.parts = .root :: p.names.map .name) ∧
          ∀ r ∈ stage.redirection, (s.session.sink r).path.IsNormal)) ∧
    ∀ s name s', runLine env line s ≠ .error (.argument (.missingDestination name)) s' := by
  refine ⟨fun stages hparse => ?_, fun s name s' hrun => phase?_ne_none_of_runLine hrun rfl⟩
  obtain ⟨hne, hwell, hplain⟩ := wellRead_of_parse hparse
  refine ⟨hne, hwell, hplain, fun stage hmem piped s call s' hbind => ?_⟩
  have suits : stage.arguments.Suits stage.command.signature := (hwell stage hmem).arguments
  refine ⟨serves_of_bindStage suits hbind, fun absolute legal => ⟨fun p hp => ?_, fun r _ => ?_⟩⟩
  · have hnormal : p.IsNormal :=
      isNormal_of_bind absolute legal suits (bind_of_bindStage hbind) p hp
    exact ⟨hnormal, hnormal.parts⟩
  · exact isNormal_resolve absolute r.target

/-- A wildcard is copied into a directory. -/
theorem promises_of_parse_cp :
    let tree : Tree := ⟨[(["x.a".toList], .file .empty), ([['d']], .directory)]⟩
    ∃ stage call, Environment.plain.config.parse "cp *.a d".toList = .ok [stage] ∧
      bindStage .plain stage none (.atRoot tree) = .ok call (.atRoot tree) ∧
      call.Serves (State.atRoot tree).session stage ∧ ∀ p ∈ call.paths, p.IsNormal := by
  intro tree
  let stage : Stage :=
    ⟨.cp, ⟨[], [.path "*.a".toList .wildcard, .path ['d'] .single]⟩, none⟩
  let call : Call := ⟨[], [.matched [⟨"/x.a".toList⟩], .path ⟨"/d".toList⟩], none⟩
  have parsed : Environment.plain.config.parse "cp *.a d".toList = .ok [stage] := by rfl
  have bound : bindStage .plain stage none (.atRoot tree) = .ok call (.atRoot tree) := by rfl
  have named : (State.atRoot tree).volume.WellNamed := ⟨by decide, nofun⟩
  obtain ⟨-, -, -, hstage⟩ := (promises_of_parse .plain "cp *.a d".toList).1 _ parsed
  obtain ⟨hserves, hnormal⟩ := hstage stage List.mem_cons_self _ _ _ _ bound
  exact ⟨stage, call, parsed, bound, hserves,
    fun p hp => ((hnormal rfl named.showsLegalNames).1 p hp).1⟩

end FileShell
