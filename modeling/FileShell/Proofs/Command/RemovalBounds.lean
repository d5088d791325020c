import FileShell.Proofs.Command.RemovalRecords

/-! # The bounds of a removal

What a run removes lies at or below its operands, whichever way it ends. A run that fails has left
everything as it was when it reached the operand at which it fails, and a run that ends well has
removed each of its operands or was told to leave it (`removal_bounds`).

* **`Path.Covers`** — the locations that may go with an operand.
* **`Volume.Prunes`** — what removals and records have made of a volume.
* **`removeOperands_append`** — a run is cut at an operand.
* **`LeftStanding`** — what has become of an operand that was not removed. -/

namespace FileShell

variable {command : Command} {recursive : Bool} {path : Path} {s s' : State} {v v' v'' : Volume}
  {lost wider : Location → Prop}

/-! ## Pruned volumes -/

/-- **The locations that may go with an operand**: its own and those below it. -/
def Path.Covers (p : Path) (l : Location) : Prop := l = p.names ∨ Tree.liesBelow p.names l = true

instance (p : Path) (l : Location) : Decidable (p.Covers l) :=
  inferInstanceAs (Decidable (l = p.names ∨ Tree.liesBelow p.names l = true))

/-- **A volume from which some entries were taken**, all of them at locations of a kind. -/
structure Volume.Prunes (lost : Location → Prop) (v v' : Volume) : Prop where
  /-- Everything else is as it was, the log apart. -/
  kept : ∀ l, v.LogApart l → v'.LogApart l ∧
    (v'.tree.get? l = v.tree.get? l ∨ lost l ∧ v'.tree.get? l = none)
  /-- Nothing has come. -/
  vacant : ∀ l, v.tree.get? l = none → v'.tree.get? l = none
  /-- A directory has stayed one or is gone. -/
  directory : ∀ l, v.tree.get? l = some .directory →
    v'.tree.get? l = some .directory ∨ v'.tree.get? l = none

namespace Volume

theorem Prunes.trans (h : Prunes lost v v') (h' : Prunes lost v' v'') : Prunes lost v v'' where
  kept l hl := by
    obtain ⟨hapart, hget⟩ := h.kept l hl
    obtain ⟨hapart', heq | hnone⟩ := h'.kept l hapart
    · exact ⟨hapart', by rwa [heq]⟩
    · exact ⟨hapart', .inr hnone⟩
  vacant l hl := h'.vacant l (h.vacant l hl)
  directory l hl := (h.directory l hl).elim (h'.directory l) fun hnone => .inr (h'.vacant l hnone)

/-- What is not of that kind is as it was. -/
theorem Prunes.get?_eq {l : Location} (h : Prunes lost v v') (hl : v.LogApart l)
    (hkept : ¬lost l) : v'.tree.get? l = v.tree.get? l :=
  (h.kept l hl).2.resolve_right fun hlost => hkept hlost.1

/-- Entries at locations of one kind are entries at locations of a wider one. -/
theorem Prunes.mono (h : Prunes lost v v') (hwider : ∀ l, lost l → wider l) :
    Prunes wider v v' where
  kept l hl := (h.kept l hl).imp_right <| Or.imp_right <| And.imp_left <| hwider l
  vacant := h.vacant
  directory := h.directory

/-- Where nothing but records lies in between nothing was taken. -/
theorem Untouched.prunes (h : v.Untouched v') : Prunes lost v v' where
  kept l hl := (h.apart l hl).imp_right .inl
  vacant l hl := (h.present l).2 hl
  directory l hl := .inl ((h.ways.directory l).1 hl)

/-- **What is taken from the tree is taken from the volume.** -/
theorem prunes_withTree {tree : Tree} (h : Tree.Prunes lost v.tree tree) :
    Prunes lost v (v.withTree tree) where
  kept l hl := ⟨hl.withTree tree, h l⟩
  vacant l hl := by
    rcases h l with heq | ⟨-, hnone⟩
    · exact heq.trans hl
    · exact hnone
  directory l hl := (h l).imp (fun heq => heq.trans hl) And.right

/-- A record takes nothing. -/
theorem Prunes.logged (h : Prunes lost v v') (r : Record) : Prunes lost v (v'.logged r) :=
  h.trans ((Untouched.refl v').logged r).prunes

end Volume

/-! ## One operand -/

/-- A directory that is removed with all that lies below it takes nothing else along. -/
theorem Volume.prunes_removeAll (linkless : v.tree.Linkless) (normal : path.IsNormal)
    (below : path.names ≠ []) : v.Prunes path.Covers (v.removeAll path).2 := by
  unfold removeAll afterAttempt
  split
  · exact (Volume.Untouched.refl v).prunes
  · exact Volume.prunes_withTree (Tree.prunes_removeAll linkless normal below)

/-- **What goes with one operand** is covered by it, whichever way it ends. -/
theorem prunes_removeOne (command : Command) (recursive : Bool)
    (linkless : s.volume.tree.Linkless) (normal : path.IsNormal) (below : path.names ≠ []) :
    s.volume.Prunes path.Covers
      (Shell.reached (removeOne command recursive path s)).volume := by
  have hall := Volume.prunes_removeAll linkless normal below
  cases hfull : s.volume.isFull path with
  | false =>
    rcases @removeOne_of_not_isFull command recursive path s hfull with
      ⟨tree, hremove, heq⟩ | ⟨e, heq⟩
    · rw [heq]
      have hprunes : Tree.Prunes (· = path.names) s.volume.tree tree := by
        rcases hremove with hremove | hremove
        · exact Tree.prunes_of_removeFile hremove linkless normal
        · exact Tree.prunes_of_removeDirectory hremove linkless normal below
      exact (Volume.prunes_withTree hprunes).mono fun l hl => .inl hl
    · rw [heq]
      exact (Volume.Untouched.refl _).prunes
  | true =>
    rw [removeOne_of_isFull hfull]
    cases recursive with
    | true =>
      rw [removeFull_recursive, reached_removeWith]
      exact hall
    | false =>
      rcases removeFull_asking command path s with ⟨-, heq⟩ | ⟨-, s', heq, -, huntouched, -⟩
      · rw [heq, reached_removeWith]
        exact hall
      · rw [heq]
        exact huntouched.prunes

/-- **An operand that fails** has left the volume as it was. -/
theorem volume_eq_of_removeOne_eq_error {e : Failure} (linkless : s.volume.tree.Linkless)
    (normal : path.IsNormal) (below : path.names ≠ [])
    (h : removeOne command recursive path s = .error e s') : s'.volume = s.volume := by
  rcases removeOne_cases command recursive linkless normal below with
    ⟨-, e', s₁, heq, hvolume, -⟩ | ⟨-, s₁, heq, -⟩ | ⟨-, s₁, heq, -⟩
  · rw [h] at heq
    cases heq
    exact hvolume
  · rw [h] at heq
    cases heq
  · rw [h] at heq
    cases heq

/-! ## All operands -/

/-- **What goes with some operands** is covered by one of them, whichever way the run ends. -/
theorem prunes_removeOperands (command : Command) (recursive : Bool) {paths : List Path}
    (normal : ∀ p ∈ paths, p.IsNormal ∧ p.names ≠ []) (linkless : s.volume.tree.Linkless) :
    s.volume.Prunes (fun l => ∃ p ∈ paths, p.Covers l)
      (Shell.reached (removeOperands command recursive paths s)).volume := by
  induction paths generalizing s with
  | nil => exact (Volume.Untouched.refl _).prunes
  | cons path rest ih =>
    obtain ⟨hnormal, hbelow⟩ := normal path List.mem_cons_self
    have hhandled := handled_removeOne command recursive linkless hnormal hbelow
    have hfirst : s.volume.Prunes (fun l => ∃ p ∈ path :: rest, p.Covers l)
        (Shell.reached (removeOne command recursive path s)).volume :=
      (prunes_removeOne command recursive linkless hnormal hbelow).mono fun l hl =>
        ⟨path, List.mem_cons_self, hl⟩
    rw [removeOperands]
    rcases hone : removeOne command recursive path s with ⟨⟨⟩, s'⟩ | ⟨e, s'⟩
    · rw [hone] at hhandled hfirst
      rw [Shell.bind_of_ok hone]
      have hrest := ih (s := s'.logged .info (removalText command path))
        (fun p hp => normal p (List.mem_cons_of_mem _ hp))
        (hhandled.linkless.congr (Volume.sameWays_logged _ _))
      refine (hfirst.logged ⟨.info, removalText command path⟩).trans (hrest.mono fun l hl => ?_)
      obtain ⟨p, hp, hl⟩ := hl
      exact ⟨p, List.mem_cons_of_mem _ hp, hl⟩
    · rw [hone] at hfirst
      rw [Shell.bind_of_error hone]
      exact hfirst

/-- **A run is cut at an operand**: those before it are removed first. -/
theorem removeOperands_append (command : Command) (recursive : Bool) (before later : List Path)
    (s : State) :
    removeOperands command recursive (before ++ later) s =
      (removeOperands command recursive before >>= fun _ =>
        removeOperands command recursive later) s := by
  induction before generalizing s with
  | nil => rfl
  | cons path before ih =>
    rw [List.cons_append, removeOperands, removeOperands, bind_assoc]
    refine Shell.bind_congr fun _ s₁ _ => ?_
    rw [bind_assoc]
    exact Shell.bind_congr fun _ s₂ _ => ih s₂

/-- **A run that fails does so at one of its operands**, in the state that those before it have
left. -/
theorem exists_of_removeOperands_eq_error {paths : List Path} {e : Failure}
    (h : removeOperands command recursive paths s = .error e s') :
    ∃ before p later s₁, paths = before ++ p :: later ∧
      removeOperands command recursive before s = .ok () s₁ ∧
      removeOne command recursive p s₁ = .error e s' := by
  induction paths generalizing s with
  | nil => cases h
  | cons path rest ih =>
    rw [removeOperands] at h
    rcases hone : removeOne command recursive path s with ⟨⟨⟩, s₁⟩ | ⟨e', s₁⟩
    · rw [Shell.bind_of_ok hone] at h
      obtain ⟨before, p, later, s₂, rfl, hbefore, hp⟩ := ih h
      refine ⟨path :: before, p, later, s₂, rfl, ?_, hp⟩
      rw [removeOperands, Shell.bind_of_ok hone]
      exact hbefore
    · rw [Shell.bind_of_error hone] at h
      cases h
      exact ⟨[], path, rest, s, rfl, rfl, hone⟩

/-- A run that ends well has reached each of its operands, removed it or left it in place, and gone
on from there. -/
theorem exists_of_removeOperands_eq_ok {before later : List Path}
    (h : removeOperands command recursive (before ++ path :: later) s = .ok () s') :
    ∃ s₁ s₂, removeOperands command recursive before s = .ok () s₁ ∧
      removeOne command recursive path s₁ = .ok () s₂ ∧
      removeOperands command recursive later
        (s₂.logged .info (removalText command path)) = .ok () s' := by
  rw [removeOperands_append] at h
  rcases hbefore : removeOperands command recursive before s with ⟨⟨⟩, s₁⟩ | ⟨e, s₁⟩
  · rw [Shell.bind_of_ok hbefore, removeOperands] at h
    rcases hone : removeOne command recursive path s₁ with ⟨⟨⟩, s₂⟩ | ⟨e, s₂⟩
    · rw [Shell.bind_of_ok hone] at h
      exact ⟨s₁, s₂, rfl, hone, h⟩
    · rw [Shell.bind_of_error hone] at h
      cases h
  · rw [Shell.bind_of_error hbefore] at h
    cases h

/-- There are no links in the state in which an operand is reached. -/
theorem linkless_of_removeOperands {before later : List Path}
    (normal : ∀ p ∈ before ++ path :: later, p.IsNormal ∧ p.names ≠ [])
    (linkless : s.volume.tree.Linkless)
    (h : removeOperands command recursive before s = .ok () s') : s'.volume.tree.Linkless :=
  (linkless_of_mem_visits normal linkless (path, s') (mem_visits.2 ⟨before, later, rfl, h⟩)).1

/-- A directory with entries, as a command finds it, has entries in the tree if no listing is given
in advance. -/
theorem exists_entry_of_isFull (full : v.isFull path = true) (linkless : v.tree.Linkless)
    (normal : path.IsNormal) :
    v.tree.get? path.names = some .directory ∧
      (v.interference.listing path = none → ∃ n, v.tree.get? (path.names ++ [n]) ≠ none) := by
  obtain ⟨hstat, hnames⟩ := Bool.and_eq_true_iff.1 full
  rw [decide_eq_true_eq] at hstat
  obtain ⟨l, hlocate, directory⟩ := Volume.exists_of_stat_eq_directory hstat
  obtain rfl := Tree.eq_names_of_locate hlocate linkless normal
  refine ⟨directory, fun hlisting => ?_⟩
  rw [Volume.names, Volume.unlessRefused] at hnames
  split at hnames
  · next names hlist =>
    split at hlist
    · cases hlist
    · rw [hlisting] at hlist
      simp only [Tree.names, hlocate, directory, Outcome.ok_bind, Tree.enter] at hlist
      cases hlist
      have hne : (v.tree.namesBelow path.names).isEmpty = false := by simpa using hnames
      obtain ⟨n, hn⟩ := List.isEmpty_eq_false_iff_exists_mem.1 hne
      exact ⟨n, Tree.mem_namesBelow.1 hn⟩
  · cases hnames

/-- **An operand that was left standing**: a directory with entries that the user did not agree to
remove. -/
structure LeftStanding (recursive : Bool) (path : Path) (reached : State) (after : Volume) :
    Prop where
  /-- It was a directory when it was reached. -/
  directory : reached.volume.tree.get? path.names = some .directory
  /-- It had entries, unless a listing was given in advance that shows them. -/
  entries : reached.volume.interference.listing path = none →
    ∃ n, reached.volume.tree.get? (path.names ++ [n]) ≠ none
  /-- The user was asked and did not agree. -/
  declined : leftInPlace recursive (path, reached) = true
  /-- It is a directory in the end. -/
  stays : after.tree.get? path.names = some .directory

/-- **An operand of a run that ends well** is gone in the end, or it was a directory with entries
that was left in place when it was reached. -/
theorem gone_or_left {before later : List Path}
    (normal : ∀ p ∈ before ++ path :: later, p.IsNormal ∧ p.names ≠ [])
    (linkless : s.volume.tree.Linkless)
    (h : removeOperands command recursive (before ++ path :: later) s = .ok () s') :
    ∃ s₁, removeOperands command recursive before s = .ok () s₁ ∧
      (s'.volume.tree.get? path.names = none ∨ LeftStanding recursive path s₁ s'.volume) := by
  obtain ⟨s₁, s₂, hbefore, hone, hlater⟩ := exists_of_removeOperands_eq_ok h
  obtain ⟨hnormal, hbelow⟩ := normal path (by simp)
  have linkless₁ := linkless_of_removeOperands normal linkless hbefore
  have linkless₂ : s₂.volume.tree.Linkless := by
    have hhandled := handled_removeOne command recursive linkless₁ hnormal hbelow
    rw [hone] at hhandled
    exact hhandled.linkless
  -- what the operands behind it and the records take away does not come back
  have hafter : s₂.volume.Prunes (fun l => ∃ p ∈ later, p.Covers l) s'.volume := by
    have hnormal : ∀ p ∈ later, p.IsNormal ∧ p.names ≠ [] := fun p hp => normal p (by simp [hp])
    have hprunes := prunes_removeOperands (s := s₂.logged .info (removalText command path)) command
      recursive hnormal (linkless₂.congr (Volume.sameWays_logged _ _))
    rw [hlater] at hprunes
    exact (((Volume.Untouched.refl _).logged _).prunes).trans hprunes
  refine ⟨s₁, hbefore, ?_⟩
  rcases removeOne_cases command recursive linkless₁ hnormal hbelow with
    ⟨-, e, s₃, heq, -⟩ | ⟨-, s₃, heq, htakes, -⟩ | ⟨hleft, s₃, heq, huntouched, -⟩
  · rw [hone] at heq
    cases heq
  · rw [hone] at heq
    cases heq
    exact .inl (hafter.vacant _ htakes.after)
  · rw [hone] at heq
    cases heq
    have hfull : s₁.volume.isFull path = true := by
      simp only [leftInPlace, asks, Bool.and_eq_true] at hleft
      exact hleft.1.2
    obtain ⟨hdirectory, hentries⟩ := exists_entry_of_isFull hfull linkless₁ hnormal
    rcases hafter.directory _ ((huntouched.ways.directory _).1 hdirectory) with hstays | hgone
    · exact .inr ⟨hdirectory, hentries, hleft, hstays⟩
    · exact .inl hgone

/-! ## Whole runs -/

/-- **A removal keeps within its bounds**, whatever is refused and whatever is typed. On a volume
without links everything stays that is neither an operand nor below one. A run that fails does so at
one operand: those before it were removed, everything that is not at or below one of these is as it
was, and the volume is what they have left. A run that ends well has removed every operand, up to
directories that had entries when they were reached and that the user did not agree to remove. -/
theorem removal_bounds (env : Environment) {command : Command}
    (removes : command = .rm ∨ command = .rmdir) {call : Call} {s : State}
    (normal : ∀ p ∈ call.paths, p.IsNormal ∧ p.names ≠ []) (linkless : s.volume.tree.Linkless) :
    let recursive := call.has Command.recursiveOption
    (∀ l, s.volume.LogApart l → (∀ p ∈ call.paths, ¬p.Covers l) →
      (Shell.reached (command.run env call s)).volume.tree.get? l = s.volume.tree.get? l) ∧
    (∀ e s', command.run env call s = .error e s' →
      ∃ before p later s₁, call.paths = before ++ p :: later ∧
        removeOperands command recursive before s = .ok () s₁ ∧
        removeOne command recursive p s₁ = .error e s' ∧ s'.volume = s₁.volume ∧
        ∀ l, s.volume.LogApart l → (∀ q ∈ before, ¬q.Covers l) →
          s'.volume.tree.get? l = s.volume.tree.get? l) ∧
    ∀ out s', command.run env call s = .ok out s' →
      ∀ before p later, call.paths = before ++ p :: later →
        ∃ s₁, removeOperands command recursive before s = .ok () s₁ ∧
          (s'.volume.tree.get? p.names = none ∨ LeftStanding recursive p s₁ s'.volume) := by
  intro recursive
  have hrun : command.run env call s =
      (removeOperands command recursive call.paths >>= fun _ => pure []) s := by
    rcases removes with rfl | rfl <;> rfl
  have hreached := reached_run_remove env removes call s
  refine ⟨fun l hl houtside => ?_, fun e s' h => ?_, fun out s' h before p later hpaths => ?_⟩
  · rw [hreached]
    exact (prunes_removeOperands command recursive normal linkless).get?_eq hl
      fun ⟨p, hp, hcovers⟩ => houtside p hp hcovers
  · rw [hrun, Shell.bind_eq_error] at h
    obtain h | ⟨_, _, -, h⟩ := h
    · obtain ⟨before, p, later, s₁, hpaths, hbefore, hone⟩ := exists_of_removeOperands_eq_error h
      have normal' : ∀ q ∈ before, q.IsNormal ∧ q.names ≠ [] := fun q hq =>
        normal q (by simp [hpaths, hq])
      obtain ⟨hnormal, hbelow⟩ := normal p (by simp [hpaths])
      have linkless₁ := linkless_of_removeOperands (hpaths ▸ normal) linkless hbefore
      have hvolume := volume_eq_of_removeOne_eq_error linkless₁ hnormal hbelow hone
      have hprunes := prunes_removeOperands command recursive normal' linkless
      rw [hbefore] at hprunes
      refine ⟨before, p, later, s₁, hpaths, hbefore, hone, hvolume, fun l hl houtside => ?_⟩
      rw [hvolume]
      exact hprunes.get?_eq hl fun ⟨q, hq, hcovers⟩ => houtside q hq hcovers
    · cases h
  · rw [hpaths] at normal
    rcases hoperands : removeOperands command recursive call.paths s with ⟨⟨⟩, s₂⟩ | ⟨e, s₂⟩
    · rw [hrun, Shell.bind_of_ok hoperands] at h
      cases h
      exact gone_or_left normal linkless (hpaths ▸ hoperands)
    · rw [hrun, Shell.bind_of_error hoperands] at h
      cases h

/-- A directory with a file in it is left in place, and a file behind it is removed. -/
theorem removal_bounds_declined :
    let tree : Tree := ⟨[([['d']], .directory), ([['d'], ['f']], .file .empty),
      ([['e']], .file .empty), ([['g']], .file (Text.bytes ['x']))]⟩
    let s : State := { State.atRoot tree with console := ⟨[.line ['n']], []⟩ }
    let call : Call := ⟨[], [.path ⟨['/', 'd']⟩, .path ⟨['/', 'e']⟩], none⟩
    ∃ s', Command.rm.run .plain call s = .ok [] s' ∧
      s'.volume.tree.get? [['g']] = some (.file (Text.bytes ['x'])) ∧
      s'.volume.tree.get? [['d']] = some .directory ∧ s'.volume.tree.get? [['e']] = none := by
  intro tree s call
  have hpaths : call.paths = [⟨['/', 'd']⟩, ⟨['/', 'e']⟩] := rfl
  have normal : ∀ p ∈ call.paths, p.IsNormal ∧ p.names ≠ [] := by
    intro p hp
    have hp : p = ⟨['/', 'd']⟩ ∨ p = ⟨['/', 'e']⟩ := by simpa [hpaths] using hp
    rcases hp with rfl | rfl <;> exact ⟨rfl, nofun⟩
  have linkless : tree.Linkless := Tree.linkless_of_entries (by simp [tree])
  obtain ⟨s', hrun⟩ : ∃ s', Command.rm.run .plain call s = .ok [] s' := ⟨_, rfl⟩
  obtain ⟨hframe, -, hends⟩ := @removal_bounds .plain .rm (.inl rfl) call s normal linkless
  have hkept := hframe [['g']] (Volume.logApart_of_log_eq_none rfl _) <| by
    rw [hpaths]
    decide +kernel
  rw [hrun] at hkept
  refine ⟨s', hrun, hkept, ?_, ?_⟩
  · obtain ⟨s₁, -, hgone | hleft⟩ := hends [] s' hrun [] ⟨['/', 'd']⟩ [⟨['/', 'e']⟩] hpaths
    · cases hrun
      cases hgone
    · exact hleft.stays
  · obtain ⟨s₁, -, hgone | hleft⟩ := hends [] s' hrun [⟨['/', 'd']⟩] ⟨['/', 'e']⟩ [] hpaths
    · exact hgone
    · have hstays := hleft.stays
      cases hrun
      cases hstays

end FileShell
