import FileShell.Command.Browse
import FileShell.Proofs.Pager.Visits

/-! # Paging forward

Whoever pages through a text by keys that lead forward is shown its lines one after the other, with
nothing but prompts in between. The pager asks for one key after the other until all lines were
shown, and leaves all further keys to whoever reads next.

* **`Pager.rounds_cons_forward`** — what one key shows.
* **`Pager.rounds_forward`** — keys show all lines that are still to be shown.
* **`Pager.show_forward`** — so a whole text is shown. -/

namespace FileShell

/-! ## Keys that are typed -/

/-- What is typed to press a key. -/
def Key.input : Key → Text
  | .line => []
  | .page => [' ']
  | .back => ['b']
  | .quit => ['q']

@[simp] theorem Key.ofInput?_input (key : Key) : Key.ofInput? key.input = some key := by
  cases key <;> decide

/-- The input of keys that are pressed. -/
def typedKeys (keys : List Key) : List Input := keys.map fun key => .line key.input

/-- **A key leads forward** by a line or by a page. -/
def Key.LeadsForward (key : Key) : Prop := key = .line ∨ key = .page

instance : DecidablePred Key.LeadsForward := fun key =>
  inferInstanceAs (Decidable (key = .line ∨ key = .page))

theorem Key.LeadsForward.ne_quit {key : Key} (h : key.LeadsForward) : key ≠ .quit := by
  rcases h with rfl | rfl <;> decide

/-! ## What is shown -/

/-- Whether something shown is a prompt. -/
def Event.isPrompt : Event → Bool
  | .prompt _ => true
  | .write _ | .warn _ => false

/-- **What was shown** apart from prompts. -/
def shownBesides (events : List Event) : List Event := events.filter (!·.isPrompt)

@[simp] theorem shownBesides_append (before since : List Event) :
    shownBesides (before ++ since) = shownBesides before ++ shownBesides since :=
  List.filter_append _ _

@[simp] theorem shownBesides_prompt (t : Text) (since : List Event) :
    shownBesides (.prompt t :: since) = shownBesides since := rfl

@[simp] theorem shownBesides_lines (lines : List Text) :
    shownBesides (lines.map .write) = lines.map .write := by
  rw [shownBesides, List.filter_eq_self]
  simp [Event.isPrompt]

/-- **A talk with the pager has shown lines**, and nothing else but prompts. Some of the keys, the
last ones, are still to be read. -/
def HasShown (lines : List Text) (keys : List Key) (rest : List Input) (events : List Event)
    (talk : Except Failure Unit × Console) : Prop :=
  ∃ unused since, unused <:+ keys ∧
    talk = (.ok (), ⟨typedKeys unused ++ rest, events ++ since⟩) ∧
    shownBesides since = lines.map .write

/-! ## Rounds -/

namespace Pager

variable {p : Pager} {key : Key}

theorem origin_of_leadsForward (forward : key.LeadsForward) : p.origin key = p.offset := by
  rcases forward with rfl | rfl <;> rfl

/-- Where all lines were shown, no key is waited for. -/
theorem rounds_of_isDone (done : p.isDone = true) (events : List Event) (unread : List Input) :
    p.rounds events unread = (.ok (), ⟨unread, events⟩) := by
  cases unread <;> simp [rounds, done]

/-- There is nothing more to show then. -/
theorem hasShown_of_isDone (done : p.isDone = true) (keys : List Key) (rest : List Input)
    (events : List Event) :
    HasShown (p.lines.drop p.offset) keys rest events
      (p.rounds events (typedKeys keys ++ rest)) := by
  have hend : p.lines.drop p.offset = [] := List.drop_of_length_le (isDone_iff.1 done)
  refine ⟨keys, [], List.suffix_rfl, ?_, ?_⟩
  · rw [rounds_of_isDone done, List.append_nil]
  · rw [hend]
    rfl

/-- **A key that leads forward** shows the lines up to its target, and then the next one is waited
for. -/
theorem rounds_cons_forward (forward : key.LeadsForward) (more : p.isDone = false)
    (events : List Event) (rest : List Input) :
    p.rounds events (.line key.input :: rest) =
      ({ p with offset := p.target key } : Pager).rounds
        (events ++ .prompt p.prompt ::
          ((p.lines.take (p.target key)).drop p.offset).map .write) rest := by
  rw [rounds, if_neg (by simp [more])]
  simp only [Key.ofInput?_input, apply_eq forward.ne_quit, origin_of_leadsForward forward,
    List.append_assoc, List.singleton_append]

/-- The lines that it shows and those that are still to be shown then are those that were to be
shown before. -/
theorem drop_take_target (forward : key.LeadsForward) (within : p.offset ≤ p.lines.length) :
    (p.lines.take (p.target key)).drop p.offset ++ p.lines.drop (p.target key) =
      p.lines.drop p.offset := by
  have hle : p.offset ≤ (p.lines.take (p.target key)).length := by
    rw [List.length_take, Nat.min_eq_left (p.target_le key), ← origin_of_leadsForward forward]
    exact origin_le_target within key
  calc (p.lines.take (p.target key)).drop p.offset ++ p.lines.drop (p.target key)
      = (p.lines.take (p.target key) ++ p.lines.drop (p.target key)).drop p.offset :=
        (List.drop_append_of_le_length hle).symm
    _ = p.lines.drop p.offset := by rw [List.take_append_drop]

/-- **Keys that lead forward to the end** show all lines that are still to be shown. Keys that are
not needed are left. -/
theorem rounds_forward {keys : List Key} (forward : ∀ key ∈ keys, key.LeadsForward)
    (within : p.offset ≤ p.lines.length) (done : (p.after keys).isDone = true)
    (events : List Event) (rest : List Input) :
    HasShown (p.lines.drop p.offset) keys rest events
      (p.rounds events (typedKeys keys ++ rest)) := by
  induction keys generalizing p events with
  | nil => exact hasShown_of_isDone done [] rest events
  | cons key keys ih =>
    by_cases hdone : p.isDone = true
    · exact hasShown_of_isDone hdone (key :: keys) rest events
    · have hkey : key.LeadsForward := forward key List.mem_cons_self
      have hafter : ({ p with offset := p.target key } : Pager).after keys =
          p.after (key :: keys) := by rw [after, after, List.foldl_cons, apply_eq hkey.ne_quit]
      let shown : List Event :=
        .prompt p.prompt :: ((p.lines.take (p.target key)).drop p.offset).map .write
      -- the next round begins behind what this one has shown
      obtain ⟨unused, since, hsuffix, hrounds, hshown⟩ :=
        ih (fun other hmem => forward other (List.mem_cons_of_mem _ hmem)) (p.target_le key)
          (hafter ▸ done) (events ++ shown)
      refine ⟨unused, shown ++ since, hsuffix.trans (List.suffix_cons _ _), ?_, ?_⟩
      · have hround := rounds_cons_forward hkey (by simpa using hdone) events
          (typedKeys keys ++ rest)
        rw [typedKeys, List.map_cons, List.cons_append, ← typedKeys, hround, hrounds,
          List.append_assoc]
      · rw [shownBesides_append, shownBesides_prompt, shownBesides_lines, hshown,
          ← List.map_append, drop_take_target hkey within]

/-- **A text that is paged through to its end by keys that lead forward** is shown line by line. -/
theorem show_forward {lines : List Text} {pageSize : Nat} {keys : List Key}
    (forward : ∀ key ∈ keys, key.LeadsForward)
    (done : (Visit.after lines pageSize keys).pager.isDone = true) (events : List Event)
    (rest : List Input) :
    HasShown lines keys rest events
      ((Pager.start lines pageSize).show ⟨typedKeys keys ++ rest, events⟩) := by
  rw [Visit.after, Visit.pager_foldl_press] at done
  let first := (Pager.start lines pageSize).firstPage.1
  obtain ⟨unused, since, hsuffix, hrounds, hshown⟩ :=
    rounds_forward forward (Nat.min_le_right _ _) done (events ++ first.map .write) rest
  refine ⟨unused, first.map .write ++ since, hsuffix, ?_, ?_⟩
  · rw [← List.append_assoc]
    exact hrounds
  · have hfirst : first ++ lines.drop ((Pager.start lines pageSize).target .page) = lines :=
      drop_take_target (p := Pager.start lines pageSize) (.inr rfl) (Nat.zero_le _)
    rw [shownBesides_append, shownBesides_lines, hshown, ← List.map_append]
    exact congrArg _ hfirst

end Pager

end FileShell
