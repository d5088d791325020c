import FileShell.Proofs.Volume.Changes

/-! # Trees without some of their files and links

When files and links are taken away, a path may lead nowhere that led somewhere before, but it leads
nowhere else: whatever it still leads to it led to before (`Thinned.locate`, `Thinned.place`),
whether there are links on the way or not.

* **`Tree.Thinned`** — two trees of which the later one has lost files and links.
* **`Walks.of_thinned`** — walks that arrive in the later one are walks of the earlier one.
* **`place_name_eq_ok`** — the place that a path with a name at its end stands for. -/

namespace FileShell

/-! ## Steps to the root -/

/-- **A path leads to the root only with its first step.** -/
theorem Path.root_notMem_tail_steps (p : Path) : Step.root ∉ p.steps.tail := by
  have hway : Step.root ∉ (p.text.pieces '/').filterMap Step.ofPiece? := by
    intro hroot
    obtain ⟨piece, -, hpiece⟩ := List.mem_filterMap.1 hroot
    unfold Step.ofPiece? at hpiece
    split at hpiece
    · cases hpiece
    · split at hpiece
      · cases hpiece
      · split at hpiece <;> cases hpiece
  have hlast (way : List Step) : Step.root ∉ p.lastSlash way := by
    unfold Path.lastSlash
    split
    · split <;> simp
    · simp
  have hrest : Step.root ∉ (p.text.pieces '/').filterMap Step.ofPiece? ++
      p.lastSlash ((p.text.pieces '/').filterMap Step.ofPiece?) := by
    rw [List.mem_append, not_or]
    exact ⟨hway, hlast _⟩
  rw [Path.steps]
  simp only [List.append_assoc]
  split
  · exact hrest
  · exact fun hroot => hrest (List.mem_of_mem_tail hroot)

namespace Tree

variable {t t' t'' : Tree} {purpose : Purpose} {links : Nat} {l m : Location} {steps : List Step}
  {p : Path}

/-! ## Files and links taken away -/

/-- **A tree that has lost files and links**: its directories are the same, and what else it has is
of the kind that it was. -/
structure Thinned (t t' : Tree) : Prop where
  /-- The directories are the same. -/
  directory : ∀ l, t.get? l = some .directory ↔ t'.get? l = some .directory
  /-- What has stayed is the same link, or none. -/
  link : ∀ l target, t'.get? l ≠ none →
    (t.get? l = some (.link target) ↔ t'.get? l = some (.link target))
  /-- Nothing has come. -/
  vacant : ∀ l, t.get? l = none → t'.get? l = none

theorem Thinned.trans (h : Thinned t t') (h' : Thinned t' t'') : Thinned t t'' where
  directory l := (h.directory l).trans (h'.directory l)
  link l target stands :=
    (h.link l target fun hnone => stands (h'.vacant l hnone)).trans (h'.link l target stands)
  vacant l hnone := h'.vacant l (h.vacant l hnone)

/-- With the same directories and the same links nothing was taken away but files. -/
theorem SameWays.thinned (same : SameWays t t') (vacant : ∀ l, t.get? l = none → t'.get? l = none) :
    Thinned t t' where
  directory := same.directory
  link l target _ := same.link l target
  vacant := vacant

/-- **One entry that is no directory is taken away.** -/
theorem thinned_erase (free : t.get? l ≠ some .directory) : Thinned t (t.erase l) := by
  have hget (k : Location) : (t.erase l).get? k = if k = l then none else t.get? k :=
    get?_erase (ne_root free) k
  refine ⟨fun k => ?_, fun k target stands => ?_, fun k hnone => ?_⟩
  · rw [hget]
    by_cases hk : k = l
    · subst hk
      simp [free]
    · rw [if_neg hk]
  · rw [hget] at stands ⊢
    by_cases hk : k = l
    · rw [if_pos hk] at stands
      exact absurd rfl stands
    · rw [if_neg hk]
  · rw [hget, hnone, ite_self]

/-! ## Walks that still arrive -/

/-- A walk that does not go to the root begins where something stands, if it arrives where something
stands. -/
theorem Walks.get?_ne_none (h : t.Walks purpose links l steps m) (stands : t.get? m ≠ none)
    (noRoot : Step.root ∉ steps) : t.get? l ≠ none := by
  cases h with
  | done => exact stands
  | root tail => exact absurd List.mem_cons_self noRoot
  | here inside tail | slash inside tail | up inside tail | name inside allowed short plain tail
  | link inside allowed short there tail => simp [inside]

/-- **A walk that still arrives is one of before**, and every link on it was followed before. -/
theorem Walks.of_thinned (h : t'.Walks purpose links l steps m) (thinned : Thinned t t')
    (stands : t'.get? m ≠ none) (noRoot : Step.root ∉ steps.tail) :
    t.Walks purpose links l steps m := by
  induction h with
  | done => exact .done
  | root tail ih => exact .root (ih stands (mt List.mem_of_mem_tail noRoot))
  | here inside tail ih =>
    exact .here ((thinned.directory _).2 inside) (ih stands (mt List.mem_of_mem_tail noRoot))
  | slash inside tail ih =>
    exact .slash ((thinned.directory _).2 inside) (ih stands (mt List.mem_of_mem_tail noRoot))
  | up inside tail ih =>
    exact .up ((thinned.directory _).2 inside) (ih stands (mt List.mem_of_mem_tail noRoot))
  | name inside allowed short plain tail ih =>
    -- the entry of the name is still there, for the walk goes on from it
    have there := tail.get?_ne_none stands noRoot
    refine .name ((thinned.directory _).2 inside) allowed short (fun target htarget => ?_)
      (ih stands (mt List.mem_of_mem_tail noRoot))
    exact plain target ((thinned.link _ target there).1 htarget)
  | @link links l m n target rest inside allowed short there tail ih =>
    have htail : Step.root ∉ ((Path.mk target).steps ++ rest).tail := by
      intro hroot
      rcases hsteps : (Path.mk target).steps with _ | ⟨first, others⟩
      · rw [hsteps] at hroot
        exact noRoot (List.mem_of_mem_tail hroot)
      · rw [hsteps, List.cons_append, List.tail_cons, List.mem_append] at hroot
        have hothers := (Path.mk target).root_notMem_tail_steps
        rw [hsteps] at hothers
        exact hroot.elim hothers noRoot
    exact .link ((thinned.directory _).2 inside) allowed short
      ((thinned.link _ target (by simp [there])).2 there) (ih stands htail)

/-- **Where a path still leads to something it led before.** -/
theorem Thinned.locate (thinned : Thinned t t') (h : t'.locate p = .ok l)
    (stands : t'.get? l ≠ none) : t.locate p = .ok l := by
  obtain ⟨short, walk⟩ := locate_eq_ok.1 h
  exact locate_eq_ok.2 ⟨short, walk.of_thinned thinned stands p.root_notMem_tail_steps⟩

/-! ## Places -/

/-- **The place of a path with a name at its end**: a directory, reached by the steps before the
name, and the name in it. A link there is not followed. -/
theorem place_name_eq_ok :
    t.place p = .ok (l, .name) ↔ p.text.byteCount ≤ maxPathBytes ∧
      ∃ above n d, p.steps = above ++ [.name n] ∧ t.Walks .visit maxLinks [] above d ∧
        t.get? d = some .directory ∧ n.byteCount ≤ maxNameBytes ∧ l = d ++ [n] := by
  rw [place, Outcome.bind_eq_ok]
  simp only [checkedSteps_eq_ok]
  constructor
  · rintro ⟨steps, ⟨short, rfl⟩, h⟩
    refine ⟨short, ?_⟩
    unfold placeSteps at h
    split at h
    · next n above hreverse =>
      obtain ⟨d, hd, h⟩ := Outcome.bind_eq_ok.1 h
      obtain ⟨m, hm, h⟩ := Outcome.bind_eq_ok.1 h
      cases h
      obtain ⟨inside, short', rfl⟩ := step_eq_ok.1 hm
      exact ⟨above.reverse, n, d, by simpa using congrArg List.reverse hreverse,
        walk_eq_ok_iff.1 hd, inside, short', rfl⟩
    -- no other ending is a name
    · simp [Outcome.bind_eq_ok] at h
    · simp [Outcome.bind_eq_ok] at h
    · simp [Outcome.bind_eq_ok] at h
    · cases h
  · rintro ⟨short, above, n, d, hsteps, walk, inside, short', rfl⟩
    refine ⟨p.steps, ⟨short, rfl⟩, ?_⟩
    have hlocate : t.locateSteps above = .ok d := walk_eq_ok_iff.2 walk
    have hstep : t.step d n = .ok (d ++ [n]) := step_eq_ok.2 ⟨inside, short', rfl⟩
    simp [placeSteps, hsteps, hlocate, hstep]

/-- **The place that a path still has it had before.** -/
theorem Thinned.place (thinned : Thinned t t') (h : t'.place p = .ok (l, .name)) :
    t.place p = .ok (l, .name) := by
  obtain ⟨short, above, n, d, hsteps, walk, inside, short', rfl⟩ := place_name_eq_ok.1 h
  have hroot : Step.root ∉ above.tail := by
    intro hroot
    refine p.root_notMem_tail_steps ?_
    rw [hsteps]
    cases above with
    | nil => cases hroot
    | cons first others => exact List.mem_append_left _ hroot
  exact place_name_eq_ok.2 ⟨short, above, n, d, hsteps,
    walk.of_thinned thinned (by simp [inside]) hroot, (thinned.directory d).2 inside, short', rfl⟩

end Tree

end FileShell
