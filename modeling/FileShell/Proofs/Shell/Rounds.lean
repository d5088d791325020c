import FileShell.Proofs.Command.Rights
import FileShell.Shell.Loop

/-! # The rounds of the read loop

In a round the loop reads a line from the input and runs it, and the line may read on from the same
input while it runs. What a round has read is an `Exchange`. The loop goes from round to round
(`Conversation`) until a round ends it (`Stops`). The input is finite and every round takes at least
its line from it, so there is always such an end; no other bound on the rounds comes into it.

* **`Round`**, **`Stops`** — what a round can come to.
* **`exists_conversation`** — the loop reaches an end, by induction on the input that is left.
* **`rounds_of_conversation`** — that end is what the loop gives.
* **`readLoop_converses`** — the loop as a whole. -/

namespace FileShell

variable {env : Environment} {s next : State}

/-! ## What a round has read -/

/-- **What is read in one round**: a line, and what is taken from the input while it runs. -/
structure Exchange where
  /-- The line that the loop itself reads. -/
  line : Text
  /-- What the commands of the line read. -/
  taken : List Input
deriving DecidableEq, Repr

/-- All of it, in order. -/
def Exchange.inputs (x : Exchange) : List Input := .line x.line :: x.taken

/-- The state after the prompt of the loop, with the input that is left then. -/
def State.prompted (s : State) (rest : List Input) : State :=
  { s with console := ⟨rest, s.console.events ++ [.prompt (s.session.cwd.text ++ " : ".toList)]⟩ }

@[simp] theorem State.unread_prompted (s : State) (rest : List Input) :
    (s.prompted rest).console.unread = rest := rfl

/-- **A round after which the loop goes on**, with what was read in it. -/
inductive Round (env : Environment) : State → Exchange → State → Prop
  /-- A blank line is passed over. -/
  | blank {s : State} {line : Text} {rest : List Input}
      (unread : s.console.unread = .line line :: rest) (blank : line.isAllBlank = true) :
      Round env s ⟨line, []⟩ (s.prompted rest)
  /-- A line is run and goes through. -/
  | ran {s next : State} {line : Text} {rest taken : List Input}
      (unread : s.console.unread = .line line :: rest) (solid : line.isAllBlank = false)
      (run : runLine env line (s.prompted rest) = .ok () next)
      (left : rest = taken ++ next.console.unread) : Round env s ⟨line, taken⟩ next
  /-- A line is run and fails, and one warning says why. -/
  | failed {s next : State} {line : Text} {rest taken : List Input} {e : Failure}
      (unread : s.console.unread = .line line :: rest) (solid : line.isAllBlank = false)
      (run : runLine env line (s.prompted rest) = .error e next) (stays : e ≠ .halt)
      (left : rest = taken ++ next.console.unread) :
      Round env s ⟨line, taken⟩ { next with console :=
        ⟨next.console.unread, next.console.events ++ [.warn ("fsh: ".toList ++ e.message)]⟩ }

/-- **A round that ends the loop**, with what was read in it. -/
inductive Stops (env : Environment) : State → List Input → State → Prop
  /-- There is nothing left to read. -/
  | ended {s : State} (unread : s.console.unread = []) : Stops env s [] (s.prompted [])
  /-- The line cannot be read, and one warning says why. -/
  | unreadable {s : State} {reason : Text} {rest : List Input}
      (unread : s.console.unread = .failure reason :: rest) :
      Stops env s [.failure reason] { s.prompted rest with console :=
        ⟨rest, (s.prompted rest).console.events ++
          [.warn ("fsh: cannot read input: ".toList ++ reason)]⟩ }
  /-- A line asks to leave. -/
  | halted {s next : State} {line : Text} {rest taken : List Input}
      (unread : s.console.unread = .line line :: rest) (solid : line.isAllBlank = false)
      (run : runLine env line (s.prompted rest) = .error .halt next)
      (left : rest = taken ++ next.console.unread) : Stops env s (.line line :: taken) next

/-! ## One round -/

/-- A round takes what it reads from the front of the input. -/
theorem Round.unread_eq {x : Exchange} (h : Round env s x next) :
    s.console.unread = x.inputs ++ next.console.unread := by
  cases h with
  | blank unread blank => exact unread
  | ran unread solid run left => rw [unread, left, Exchange.inputs, List.cons_append]
  | failed unread solid run stays left => rw [unread, left, Exchange.inputs, List.cons_append]

/-- So does the last one. -/
theorem Stops.unread_eq {last : List Input} (h : Stops env s last next) :
    s.console.unread = last ++ next.console.unread := by
  cases h with
  | ended unread => exact unread
  | unreadable unread => exact unread
  | halted unread solid run left => rw [unread, left, List.cons_append]

/-- Every round but the last one leaves less to read. -/
theorem Round.length_lt {x : Exchange} (h : Round env s x next) :
    next.console.unread.length < s.console.unread.length := by
  rw [h.unread_eq, Exchange.inputs, List.length_append, List.length_cons]
  omega

/-- **In every state there is a round**, which ends the loop or does not. -/
theorem round_or_stops (env : Environment) (s : State) :
    (∃ x next, Round env s x next) ∨ ∃ last final, Stops env s last final := by
  rcases hunread : s.console.unread with _ | ⟨line | reason, rest⟩
  · exact .inr ⟨_, _, .ended hunread⟩
  · by_cases hblank : line.isAllBlank = true
    · exact .inl ⟨_, _, .blank hunread hblank⟩
    have solid : line.isAllBlank = false := by simpa using hblank
    -- what the line reads while it runs comes from the front of the same input
    obtain ⟨taken, htaken⟩ := (Shell.within_runLine env line (s.prompted rest)).front
    rw [State.unread_prompted] at htaken
    rcases hrun : runLine env line (s.prompted rest) with ⟨_, next⟩ | ⟨e, next⟩
    · rw [hrun] at htaken
      exact .inl ⟨_, _, .ran hunread solid hrun htaken.symm⟩
    · rw [hrun] at htaken
      by_cases halts : e = .halt
      · rw [halts] at hrun
        exact .inr ⟨_, _, .halted hunread solid hrun htaken.symm⟩
      · exact .inl ⟨_, _, .failed hunread solid hrun halts htaken.symm⟩
  · exact .inr ⟨_, _, .unreadable hunread⟩

/-- What is asked for is the first thing in the input. -/
theorem Console.ask_line {c : Console} {line : Text} {rest : List Input}
    (unread : c.unread = .line line :: rest) (prompt : Text) :
    c.ask prompt = (.ok (some line), ⟨rest, c.events ++ [.prompt prompt]⟩) := by
  rw [ask, unread]
  rfl

/-- A round in which a line can be read. -/
theorem rounds_line {line : Text} {rest : List Input}
    (unread : s.console.unread = .line line :: rest) (env : Environment) (n : Nat) :
    rounds env (n + 1) s =
      if line.isAllBlank then rounds env n (s.prompted rest)
      else
        match runLine env line (s.prompted rest) with
        | .ok _ next => rounds env n next
        | .error .halt next => next
        | .error failure next => rounds env n (next.warned (report failure.message)) := by
  rw [rounds, Console.ask_line unread]
  rfl

/-- **The loop goes on where a round has led.** -/
theorem rounds_of_round {x : Exchange} (h : Round env s x next) (n : Nat) :
    rounds env (n + 1) s = rounds env n next := by
  cases h with
  | blank unread blank => rw [rounds_line unread, if_pos blank]
  | ran unread solid run left => rw [rounds_line unread, if_neg (by simp [solid]), run]
  | @failed _ _ _ _ e unread solid run stays left =>
    rw [rounds_line unread, if_neg (by simp [solid]), run]
    cases e with
    | halt => exact absurd rfl stays
    | line _ | argument _ | path _ | execution _ => rfl

/-- **A round that ends the loop gives its end**, however many rounds there might be. -/
theorem rounds_of_stops {last : List Input} {final : State} (h : Stops env s last final) (n : Nat) :
    rounds env (n + 1) s = final := by
  cases h with
  | ended unread =>
    -- asking shows the prompt and leaves the input empty
    rw [rounds, Console.ask, unread]
    simp only [Console.emit, unread]
    rfl
  | unreadable unread =>
    rw [rounds, Console.ask, unread]
    rfl
  | halted unread solid run left => rw [rounds_line unread, if_neg (by simp [solid]), run]

/-! ## Rounds are determined -/

/-- From one state a round leads to one state, and reads the same. -/
theorem Round.unique {x x' : Exchange} {next' : State} (h : Round env s x next)
    (h' : Round env s x' next') : x' = x ∧ next' = next := by
  -- the loop with one round to go computes where it leads, and what is gone from the input was read
  have hnext : next' = next :=
    calc
      next' = rounds env 1 s := (rounds_of_round h' 0).symm
      _ = next := rounds_of_round h 0
  subst hnext
  have hinputs : x'.inputs = x.inputs :=
    List.append_cancel_right (h'.unread_eq.symm.trans h.unread_eq)
  obtain ⟨line, taken⟩ := x
  obtain ⟨line', taken'⟩ := x'
  obtain ⟨rfl, rfl⟩ : line' = line ∧ taken' = taken := by simpa [Exchange.inputs] using hinputs
  exact ⟨rfl, rfl⟩

/-- The same goes for the last round. -/
theorem Stops.unique {last last' : List Input} {final final' : State}
    (h : Stops env s last final) (h' : Stops env s last' final') : last' = last ∧ final' = final := by
  have hfinal : final' = final :=
    calc
      final' = rounds env 1 s := (rounds_of_stops h' 0).symm
      _ = final := rounds_of_stops h 0
  subst hfinal
  exact ⟨List.append_cancel_right (h'.unread_eq.symm.trans h.unread_eq), rfl⟩

/-- No round both ends the loop and does not. -/
theorem Round.not_stops {x : Exchange} {last : List Input} {final : State}
    (h : Round env s x next) : ¬Stops env s last final := by
  intro hstops
  have hunread : s.console.unread = .line x.line :: (x.taken ++ next.console.unread) := h.unread_eq
  cases hstops with
  | ended unread =>
    rw [unread] at hunread
    cases hunread
  | unreadable unread =>
    rw [unread] at hunread
    cases hunread
  | halted unread solid run left =>
    -- the same line would have been run with another outcome
    cases h with
    | blank unread' blank =>
      rw [unread] at unread'
      cases unread'
      rw [blank] at solid
      cases solid
    | ran unread' solid' run' left' =>
      rw [unread] at unread'
      cases unread'
      rw [run] at run'
      cases run'
    | failed unread' solid' run' stays left' =>
      rw [unread] at unread'
      cases unread'
      rw [run] at run'
      cases run'
      exact stays rfl

/-! ## From round to round -/

/-- **Rounds that follow one another**, each from the state in which the one before has ended, with
what was read in them. -/
inductive Conversation (env : Environment) : State → List Exchange → State → Prop
  | done (s : State) : Conversation env s [] s
  | more {s next reached : State} {x : Exchange} {later : List Exchange}
      (round : Round env s x next) (rest : Conversation env next later reached) :
      Conversation env s (x :: later) reached

variable {exchanges : List Exchange} {reached final : State} {last : List Input}

/-- **All that is read comes from one input, in order**: each line of the loop, and behind it what
was read while it ran. -/
theorem Conversation.unread_eq (h : Conversation env s exchanges reached) :
    s.console.unread = exchanges.flatMap Exchange.inputs ++ reached.console.unread := by
  induction h with
  | done s => rfl
  | more round rest ih => rw [round.unread_eq, ih, List.flatMap_cons, List.append_assoc]

/-- **There is always an end to be reached**, since there is less to read after every round. -/
theorem exists_conversation (env : Environment) (s : State) :
    ∃ exchanges reached last final,
      Conversation env s exchanges reached ∧ Stops env reached last final := by
  -- by induction on what is left to read
  induction hlength : s.console.unread.length using Nat.strong_induction_on generalizing s with
  | _ n ih =>
    rcases round_or_stops env s with ⟨x, next, round⟩ | ⟨last, final, stops⟩
    · have hless : next.console.unread.length < n := by
        have hlt := round.length_lt
        omega
      obtain ⟨exchanges, reached, last, final, conversation, stops⟩ := ih _ hless next rfl
      exact ⟨x :: exchanges, reached, last, final, .more round conversation, stops⟩
    · exact ⟨[], s, last, final, .done s, stops⟩

/-- **The loop gives the end that is reached**, if it has more rounds than there is to read. -/
theorem rounds_of_conversation (h : Conversation env s exchanges reached)
    (stops : Stops env reached last final) {n : Nat} (enough : s.console.unread.length < n) :
    rounds env n s = final := by
  -- a round uses up one of the rounds and at least one of the inputs, so enough of them are left
  induction h generalizing n with
  | done s =>
    obtain ⟨n, rfl⟩ : ∃ m, n = m + 1 := ⟨n - 1, by omega⟩
    exact rounds_of_stops stops n
  | @more s next reached x later round rest ih =>
    obtain ⟨n, rfl⟩ : ∃ m, n = m + 1 := ⟨n - 1, by omega⟩
    have hlt := round.length_lt
    rw [rounds_of_round round]
    exact ih stops (by omega)

/-- **What is read, and what it leads to, is determined** up to the end of the loop. -/
theorem Conversation.unique (h : Conversation env s exchanges reached)
    (stops : Stops env reached last final) {exchanges' : List Exchange} {reached' final' : State}
    {last' : List Input} (h' : Conversation env s exchanges' reached')
    (stops' : Stops env reached' last' final') :
    exchanges' = exchanges ∧ reached' = reached ∧ last' = last ∧ final' = final := by
  -- where one chain of rounds comes to its end, the other cannot go on
  induction h generalizing exchanges' with
  | done s =>
    cases h' with
    | done => exact ⟨rfl, rfl, stops.unique stops'⟩
    | more round rest => exact absurd stops round.not_stops
  | more round rest ih =>
    cases h' with
    | done => exact absurd stops' round.not_stops
    | more round' rest' =>
      obtain ⟨rfl, rfl⟩ := round.unique round'
      obtain ⟨rfl, hrest⟩ := ih stops rest'
      exact ⟨rfl, hrest⟩

/-! ## The loop -/

/-- **The read loop runs every line once, and it always ends.** It goes from round to round in one
way only. Each round reads a line, passes it over if it is blank, and otherwise runs it once, in the
state that everything before it has left; a line that fails is reported with one warning. The loop
ends with the first line that asks to leave, at the end of the input, or where it cannot read a line
itself, and no bound on its rounds plays a part in that. What the rounds have read makes up the
input, up to what the last round has left: what a command reads while its line runs is never run as
a line, and nothing is read after the end. -/
theorem readLoop_converses (env : Environment) (s : State) :
    let started := s.logged .info ("session start in ".toList ++ s.session.cwd.text)
    ∃ exchanges reached last final,
      Conversation env started exchanges reached ∧ Stops env reached last final ∧
      (∀ n, s.console.unread.length < n → rounds env n started = final) ∧
      readLoop env s = final.logged .info "session end".toList ∧
      s.console.unread =
        exchanges.flatMap Exchange.inputs ++ (last ++ (readLoop env s).console.unread) ∧
      ∀ exchanges' reached' last' final', Conversation env started exchanges' reached' →
        Stops env reached' last' final' →
          exchanges' = exchanges ∧ reached' = reached ∧ last' = last ∧ final' = final := by
  intro started
  obtain ⟨exchanges, reached, last, final, conversation, stops⟩ := exists_conversation env started
  have hrounds (n : Nat) (enough : s.console.unread.length < n) : rounds env n started = final :=
    rounds_of_conversation conversation stops enough
  have hloop : readLoop env s = final.logged .info "session end".toList :=
    congrArg (State.logged · .info _) (hrounds _ (Nat.lt_succ_self _))
  have hread : s.console.unread =
      exchanges.flatMap Exchange.inputs ++ (last ++ final.console.unread) :=
    calc
      s.console.unread = exchanges.flatMap Exchange.inputs ++ reached.console.unread :=
        conversation.unread_eq
      _ = exchanges.flatMap Exchange.inputs ++ (last ++ final.console.unread) := by
        rw [stops.unread_eq]
  refine ⟨exchanges, reached, last, final, conversation, stops, hrounds, hloop, ?_,
    fun _ _ _ _ other ends => conversation.unique stops other ends⟩
  rw [hloop]
  exact hread

/-- A blank line, typed input, a line that fails and one that leaves: what stands behind it is not
read, and what was typed to a command was not run. -/
theorem readLoop_converses_exit :
    let read : List Input := [.line " ".toList, .line "cat".toList, .line "exit".toList,
      .line "<stop>".toList, .line "nope".toList, .line "exit".toList]
    let s : State := { State.atRoot ⟨[]⟩ with console := ⟨read ++ [.line "pwd".toList], []⟩ }
    ∃ exchanges reached last final,
      Conversation .plain (s.logged .info ("session start in ".toList ++ s.session.cwd.text))
        exchanges reached ∧
      Stops .plain reached last final ∧ exchanges.flatMap Exchange.inputs ++ last = read := by
  intro read s
  obtain ⟨exchanges, reached, last, final, conversation, stops, -, -, hread, -⟩ :=
    readLoop_converses .plain s
  have hleft : (readLoop .plain s).console.unread = [.line "pwd".toList] := by decide +kernel
  rw [hleft, ← List.append_assoc] at hread
  have hall : read = exchanges.flatMap Exchange.inputs ++ last := List.append_cancel_right hread
  exact ⟨exchanges, reached, last, final, conversation, stops, hall.symm⟩

end FileShell
