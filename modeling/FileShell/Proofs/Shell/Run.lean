import FileShell.Proofs.Line.Reading
import FileShell.Shell.Execute

/-! # Runs taken apart

A run made of two goes on with the result of the first, from the state that was reached, and ends
where the first one fails. -/

namespace FileShell

namespace Shell

variable {α β : Type} {x : Shell α} {f : α → Shell β} {s s' : State} {a : α} {e : Failure}

@[simp] theorem pure_apply (a : α) (s : State) : (pure a : Shell α) s = .ok a s := rfl

@[simp] theorem throw_apply (e : Failure) (s : State) : (throw e : Shell α) s = .error e s := rfl

/-- A run goes on with the result of its first part, from the state that was reached. -/
theorem bind_of_ok (h : x s = .ok a s') : (x >>= f) s = f a s' := by
  change EStateM.bind x f s = _
  rw [EStateM.bind, h]

/-- A run ends where its first part fails. -/
theorem bind_of_error (h : x s = .error e s') : (x >>= f) s = .error e s' := by
  change EStateM.bind x f s = _
  rw [EStateM.bind, h]

/-- **A run made of two fails** if its first part does, or if its second part fails where the first
one ended. -/
theorem bind_eq_error : (x >>= f) s = .error e s' ↔
    x s = .error e s' ∨ ∃ a s₁, x s = .ok a s₁ ∧ f a s₁ = .error e s' := by
  rcases hx : x s with ⟨a, s₁⟩ | ⟨d, s₁⟩
  · rw [bind_of_ok hx]
    constructor
    · intro h
      exact .inr ⟨a, s₁, rfl, h⟩
    · rintro (h | ⟨b, s₂, h, hf⟩)
      · cases h
      · cases h
        exact hf
  · rw [bind_of_error hx]
    constructor
    · intro h
      cases h
      exact .inl rfl
    · rintro (h | ⟨b, s₂, h, -⟩)
      · cases h
        rfl
      · cases h

/-- Runs that begin in the same way end in the same way if they go on in the same way. -/
theorem bind_congr {g : α → Shell β} (h : ∀ a s', x s = .ok a s' → f a s' = g a s') :
    (x >>= f) s = (x >>= g) s := by
  rcases hx : x s with ⟨a, s'⟩ | ⟨e, s'⟩
  · rw [bind_of_ok hx, bind_of_ok hx, h a s' hx]
  · rw [bind_of_error hx, bind_of_error hx]

/-- An attempted change gives its outcome, and the volume is what it has left. -/
theorem attempt_of_eq {change : Volume → Except FileError Unit × Volume}
    {outcome : Except FileError Unit} {v : Volume} (h : change s.volume = (outcome, v)) :
    attempt change s = .ok outcome { s with volume := v } := by
  rw [attempt_apply, h]

/-- What an outcome that was reached without a run does to the state: nothing. -/
theorem ofExcept_apply (r : Except Failure α) (s : State) :
    ofExcept r s = match r with
      | .ok a => .ok a s
      | .error e => .error e s := by
  cases r <;> rfl

/-- The state that a run has reached, well or not. -/
def reached {α : Type} : EStateM.Result Failure State α → State
  | .ok _ s => s
  | .error _ s => s

end Shell

/-! ## Lines -/

/-- **A line that was read is run**, after its record was made. A failure is recorded as well; the
request to leave is none. -/
theorem runLine_of_parse_eq_ok {env : Environment} {line : Text} {stages : List Stage}
    (h : env.config.parse line = .ok stages) (s : State) :
    runLine env line s =
      match execute env stages (s.logged .info (lineRecord line)) with
      | .ok _ s' => .ok () s'
      | .error .halt s' => .error .halt s'
      | .error failure s' => .error failure
          (s'.logged .warning (failure.label ++ " error: ".toList ++ failure.message)) := by
  have hread : (Shell.ofExcept (env.config.parse line) >>= execute env)
      (s.logged .info (lineRecord line)) =
        execute env stages (s.logged .info (lineRecord line)) := by
    rw [h]
    rfl
  unfold runLine
  simp only [Shell.bind_of_ok (Shell.record_apply _ _ s)]
  rcases hend : execute env stages (s.logged .info (lineRecord line)) with ⟨_, s'⟩ | ⟨e, s'⟩
  · simp only [hread, hend]
  · cases e <;> simp only [hread, hend]

/-- A line that ends well has run its stages well. -/
theorem execute_of_runLine_eq_ok {env : Environment} {line : Text} {stages : List Stage}
    {s s' : State} (parsed : env.config.parse line = .ok stages)
    (h : runLine env line s = .ok () s') :
    execute env stages (s.logged .info (lineRecord line)) = .ok () s' := by
  rw [runLine_of_parse_eq_ok parsed] at h
  split at h
  · next hend =>
    cases h
    exact hend
  · cases h
  · cases h

/-- A line that was read and fails has failed in running its stages. The failure is recorded then,
unless it is the request to leave. -/
theorem execute_of_runLine_eq_error {env : Environment} {line : Text} {stages : List Stage}
    {s s' : State} {e : Failure} (parsed : env.config.parse line = .ok stages)
    (h : runLine env line s = .error e s') :
    ∃ s₁, execute env stages (s.logged .info (lineRecord line)) = .error e s₁ ∧
      (e = .halt ∧ s' = s₁ ∨
        s' = s₁.logged .warning (e.label ++ " error: ".toList ++ e.message)) := by
  rw [runLine_of_parse_eq_ok parsed] at h
  split at h
  · cases h
  · next hend =>
    cases h
    exact ⟨_, hend, .inl ⟨rfl, rfl⟩⟩
  · next hend =>
    cases h
    exact ⟨_, hend, .inr rfl⟩

/-- A line that is refused has made a record of itself and one of its failure, and nothing else. -/
theorem runLine_of_parse_eq_error {env : Environment} {line : Text} {e : Failure}
    (h : env.config.parse line = .error e) (s : State) :
    runLine env line s =
      .error e ((s.logged .info (lineRecord line)).logged .warning
        (e.label ++ " error: ".toList ++ e.message)) := by
  have hreading : e.phase? = some .reading := reading_of_parse h
  unfold runLine
  simp only [Shell.bind_of_ok (Shell.record_apply _ _ s), h, Shell.ofExcept]
  cases e with
  | halt => cases hreading
  | line _ | argument _ | path _ | execution _ => rfl

/-! ## A shell to run -/

/-- A shell at the root of a tree, with no input. -/
def State.atRoot (t : Tree) : State := ⟨.ofTree t, ⟨⟨['/']⟩, ⟨['/']⟩⟩, ⟨[], []⟩, []⟩

/-- An environment in which nothing is configured. -/
def Environment.plain : Environment := ⟨.default, ⟨2024, 2, 29, 12, 0, 0⟩⟩

end FileShell
