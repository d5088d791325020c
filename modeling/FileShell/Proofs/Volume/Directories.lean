import FileShell.Proofs.Volume.Removal
import Mathlib.Data.List.Induction

/-! # What making directories adds

On a tree without links a directory is made by a normal path together with the missing ones above
it, whatever of this fails. So a tree only grows, by directories on the way to the path
(`makes_createDirectory`), and if nothing fails the path leads to a directory
(`stat_of_createDirectory`). On a volume the same holds with records in between (`Volume.Grown`). -/

namespace FileShell

namespace Tree

variable {t t' t'' : Tree} {fresh fresh' : Location → Prop} {l m : Location} {ns : List Text}
  {n : Text} {p : Path}

/-! ## Grown trees -/

/-- **A tree to which some directories were added**, all of them at locations of a kind where
nothing stood. -/
def Grows (fresh : Location → Prop) (t t' : Tree) : Prop :=
  ∀ m, t'.get? m = t.get? m ∨ fresh m ∧ t.get? m = none ∧ t'.get? m = some .directory

theorem Grows.refl (fresh : Location → Prop) (t : Tree) : Grows fresh t t := fun _ => .inl rfl

/-- What was there is there. -/
theorem Grows.get?_eq (h : Grows fresh t t') (stands : t.get? m ≠ none) : t'.get? m = t.get? m :=
  (h m).resolve_right fun hnew => stands hnew.2.1

theorem Grows.directory (h : Grows fresh t t') (there : t.get? m = some .directory) :
    t'.get? m = some .directory := by
  rw [h.get?_eq (by simp [there]), there]

theorem Grows.trans (h : Grows fresh t t') (h' : Grows fresh t' t'') : Grows fresh t t'' := by
  intro m
  rcases h m with heq | ⟨hfresh, hnone, hnew⟩
  · rw [← heq]
    exact h' m
  · exact .inr ⟨hfresh, hnone, h'.directory hnew⟩

/-- Directories at locations of one kind are directories at locations of a wider one. -/
theorem Grows.mono (h : Grows fresh t t') (wider : ∀ m, fresh m → fresh' m) : Grows fresh' t t' :=
  fun m => (h m).imp_right fun ⟨hfresh, hnew⟩ => ⟨wider m hfresh, hnew⟩

/-- No link comes from growing. -/
theorem Grows.linkless (h : Grows fresh t t') (linkless : t.Linkless) : t'.Linkless := by
  intro m target hget
  rcases h m with heq | ⟨-, -, hnew⟩
  · exact linkless m target (heq ▸ hget)
  · rw [hnew] at hget
    cases hget

/-- One directory is added where nothing stood. -/
theorem grows_set (free : t.get? l = none) : Grows (· = l) t (t.set l .directory) := by
  have below : l ≠ [] := by
    rintro rfl
    cases free
  intro m
  rw [get?_set below]
  by_cases hm : m = l
  · subst hm
    exact .inr ⟨rfl, free, if_pos rfl⟩
  · exact .inl (if_neg hm)

/-- **A walk along names is still one in a tree that has kept its directories**, as long as there are
no links. -/
theorem Walks.of_directories {purpose : Purpose} {links : Nat}
    (walk : t.Walks purpose links l (ns.map .name) m)
    (kept : ∀ k, t.get? k = some .directory → t'.get? k = some .directory) (linkless : t.Linkless)
    (linkless' : t'.Linkless) : t'.Walks purpose links l (ns.map .name) m := by
  induction ns generalizing l with
  | nil =>
    cases walk
    exact .done
  | cons n ns ih =>
    cases walk with
    | name inside allowed short plain tail =>
      exact .name (kept l inside) allowed short (linkless' _) (ih tail)
    | link inside allowed short stands tail => exact absurd stands (linkless _ _)

/-- **A walk along names goes on with one name more** from a directory. -/
theorem Walks.concat_name {purpose : Purpose} {links : Nat}
    (walk : t.Walks purpose links l (ns.map .name) m) (inside : t.get? m = some .directory)
    (short : n.byteCount ≤ maxNameBytes) (linkless : t.Linkless) :
    t.Walks purpose links l ((ns ++ [n]).map .name) (m ++ [n]) := by
  induction ns generalizing l with
  | nil =>
    cases walk
    exact .name inside (fun _ hslash => nomatch hslash) short (linkless _) .done
  | cons k ns ih =>
    cases walk with
    | name inside' allowed short' plain tail =>
      refine .name inside' (fun _ hslash => ?_) short' plain (ih tail)
      -- names are no slash
      rcases ns with _ | ⟨_, _⟩ <;> cases hslash
    | link inside' allowed short' stands tail => exact absurd stands (linkless _ _)

/-! ## Directories made -/

/-- **Names lead to a directory** from the root. -/
structure HasDirectory (t : Tree) (ns : List Text) : Prop where
  walk : t.Walks .visit maxLinks [] (.root :: ns.map .name) ns
  stands : t.get? ns = some .directory

/-- The root is a directory. -/
theorem hasDirectory_root (t : Tree) : t.HasDirectory [] := ⟨.root .done, rfl⟩

/-- Steps that lead to a directory along names lead to the location of the names. -/
theorem hasDirectory_of_isDirectoryAt (linkless : t.Linkless)
    (h : t.isDirectoryAt (.root :: ns.map .name) = true) : t.HasDirectory ns := by
  unfold isDirectoryAt at h
  split at h
  · cases h
  · next l hl =>
    have walk := walk_eq_ok_iff.1 hl
    cases walk with
    | root tail =>
      obtain rfl : l = ns := by simpa using tail.eq_append linkless
      refine ⟨.root tail, ?_⟩
      rcases hget : t.get? l with _ | _ | _ | _ <;> rw [hget] at h
      · cases h
      · cases h
      · cases h

/-- **An attempt to make the directory of some names**: it has added directories on the way to them
and nothing else, and if it has not failed the names lead to a directory. -/
structure Makes (ns : List Text) (t : Tree) (outcome : Except FileError Unit × Tree) : Prop where
  grows : Grows (· <+: ns) t outcome.2
  made : outcome.1 = .ok () → outcome.2.HasDirectory ns

/-- An attempt may follow an earlier one on the way. -/
theorem Makes.after {outcome : Except FileError Unit × Tree} (h : Makes ns t' outcome)
    (before : Grows (· <+: ns) t t') : Makes ns t outcome :=
  ⟨before.trans h.grows, h.made⟩

/-- A single directory is made where nothing stands. -/
theorem makeDirectory_eq_ok {steps : List Step} :
    t.makeDirectory steps = .ok t' ↔ ∃ l ending, t.placeSteps steps = .ok (l, ending) ∧
      t.get? l = none ∧ t' = t.set l .directory := by
  rw [makeDirectory, Outcome.bind_eq_ok]
  constructor
  · rintro ⟨⟨l, ending⟩, hplace, h⟩
    rcases hget : t.get? l with _ | _ <;> simp only [hget] at h <;> cases h
    exact ⟨l, ending, hplace, hget, rfl⟩
  · rintro ⟨l, ending, hplace, hget, rfl⟩
    exact ⟨_, hplace, by simp only [hget]; rfl⟩

/-- **A single directory is made by names**, and then they lead to it. -/
theorem makes_of_makeDirectory (linkless : t.Linkless)
    (h : t.makeDirectory (.root :: ns.map .name) = .ok t') : Makes ns t (.ok (), t') := by
  obtain ⟨l, ending, hplace, free, rfl⟩ := makeDirectory_eq_ok.1 h
  rcases List.eq_nil_or_concat' ns with rfl | ⟨ns, n, rfl⟩
  · cases hplace
    cases free
  · obtain ⟨-, d, walk, inside, short, rfl⟩ := placeSteps_eq_ok.1 hplace
    cases walk with
    | root tail =>
      obtain rfl : d = ns := by simpa using tail.eq_append linkless
      have grows := grows_set free
      have linkless' := grows.linkless linkless
      have walk' := (tail.of_directories (fun _ => grows.directory) linkless linkless').concat_name
        (grows.directory inside) short linkless'
      exact ⟨grows.mono fun m hm => hm ▸ List.prefix_refl _,
        fun _ => ⟨.root walk', get?_set_self t _ (by simp)⟩⟩

/-- A failure is forgiven where the directory is there. -/
theorem makes_unlessDirectory (linkless : t.Linkless) (e : FileError) :
    Makes ns t (t.unlessDirectory (.root :: ns.map .name) e) := by
  unfold unlessDirectory
  split
  · next h => exact ⟨.refl _ t, fun _ => hasDirectory_of_isDirectoryAt linkless h⟩
  · exact ⟨.refl _ t, nofun⟩

/-- **A directory is made with the missing ones above it**, if these are made by an attempt to make
the directory of the names before. -/
theorem makes_makeBelow {makeAbove : Tree → Except FileError Unit × Tree}
    (above : ∀ t : Tree, t.Linkless → Makes ns t (makeAbove t)) (linkless : t.Linkless) :
    Makes (ns ++ [n]) t (t.makeBelow makeAbove (.root :: (ns ++ [n]).map .name)) := by
  have habove : Grows (· <+: ns ++ [n]) t (makeAbove t).2 :=
    (above t linkless).grows.mono fun m hm => hm.trans (List.prefix_append ns [n])
  unfold makeBelow
  split
  · next h => exact makes_of_makeDirectory linkless h
  · split
    · next h =>
      rw [h] at habove
      exact ⟨habove, nofun⟩
    · next made h =>
      rw [h] at habove
      have linkless' : made.Linkless := habove.linkless linkless
      split
      · next h => exact (makes_of_makeDirectory linkless' h).after habove
      · exact (makes_unlessDirectory linkless' _).after habove
  · exact makes_unlessDirectory linkless _

/-- **All directories of some names are made.** -/
theorem makes_makeDirectories (ns : List Text) (linkless : t.Linkless) :
    Makes ns t (makeDirectories (.root :: ns.map .name : List Part).reverse t) := by
  -- the last part is made below the ones before it
  induction ns using List.reverseRecOn generalizing t with
  | nil => exact ⟨.refl _ t, fun _ => hasDirectory_root t⟩
  | append_singleton ns n ih =>
    have hparts : (.root :: (ns ++ [n]).map .name : List Part).reverse =
        .name n :: (.root :: ns.map .name : List Part).reverse := by simp
    have hsteps : (.name n :: (.root :: ns.map .name : List Part).reverse).reverse.map Part.step =
        .root :: (ns ++ [n]).map .name := by simp [Part.step]
    rw [hparts, makeDirectories, hsteps]
    exact makes_makeBelow (fun t hlinkless => ih hlinkless) linkless

/-- **A directory is made by a normal path.** -/
theorem makes_createDirectory (linkless : t.Linkless) (normal : p.IsNormal) :
    Makes p.names t (t.createDirectory p) := by
  unfold createDirectory
  split
  · exact ⟨.refl _ t, nofun⟩
  · next steps hsteps =>
    obtain ⟨-, rfl⟩ := checkedSteps_eq_ok.1 hsteps
    rw [normal.steps, normal.parts]
    rcases List.eq_nil_or_concat' p.names with hnames | ⟨ns, n, hnames⟩
    · rw [hnames]
      exact ⟨.refl _ t, fun _ => hasDirectory_root t⟩
    · have habove : (.root :: (ns ++ [n]).map .name : List Part).dropLast =
          .root :: ns.map .name := by
        rw [List.map_append, ← List.cons_append]
        exact List.dropLast_concat
      rw [hnames, habove]
      exact makes_makeBelow (fun t hlinkless => makes_makeDirectories ns hlinkless) linkless

/-- **Where a directory was made, one is found.** -/
theorem stat_of_createDirectory (linkless : t.Linkless) (normal : p.IsNormal)
    (h : (t.createDirectory p).1 = .ok ()) : (t.createDirectory p).2.stat p = .directory := by
  have short : p.text.byteCount ≤ maxPathBytes := by
    unfold createDirectory at h
    split at h
    · cases h
    · next hsteps => exact (checkedSteps_eq_ok.1 hsteps).1
  have there := (makes_createDirectory linkless normal).made h
  have hlocate : (t.createDirectory p).2.locate p = .ok p.names :=
    locate_eq_ok.2 ⟨short, by rw [normal.steps]; exact there.walk⟩
  rw [stat, hlocate]
  simp only [there.stands]

end Tree

namespace Volume

variable {v v' v'' : Volume} {fresh fresh' : Location → Prop} {m : Location} {p : Path}

/-! ## Grown volumes -/

/-- **A volume to which directories were added**, all of them at locations of a kind where nothing
stood, and nothing else: only the file of the log may have taken records. -/
structure Grown (fresh : Location → Prop) (v v' : Volume) : Prop where
  /-- What there was is unchanged, the log apart. -/
  kept : ∀ m, v.LogApart m → v.tree.get? m ≠ none → v'.tree.get? m = v.tree.get? m
  /-- What there is besides is a new directory. -/
  added : ∀ m, v.tree.get? m = none →
    v'.tree.get? m = none ∨ fresh m ∧ v'.tree.get? m = some .directory
  directory : ∀ m, v.tree.get? m = some .directory → v'.tree.get? m = some .directory
  file : ∀ m content, v.tree.get? m = some (.file content) →
    ∃ content', v'.tree.get? m = some (.file content')
  interference : v'.interference = v.interference
  /-- No log was opened. -/
  log : ∀ log, v'.log = some log → v.log = some log

theorem Grown.refl (fresh : Location → Prop) (v : Volume) : Grown fresh v v :=
  ⟨fun _ _ _ => rfl, fun _ => .inl, fun _ => id, fun _ content h => ⟨content, h⟩, rfl, fun _ => id⟩

/-- The log that is kept elsewhere stays elsewhere. -/
theorem Grown.logApart (h : Grown fresh v v') (apart : v.LogApart m) : v'.LogApart m :=
  fun log hlog => apart log (h.log log hlog)

theorem Grown.trans (h : Grown fresh v v') (h' : Grown fresh v' v'') : Grown fresh v v'' where
  kept m apart stands := by
    have heq := h.kept m apart stands
    exact (h'.kept m (h.logApart apart) (heq ▸ stands)).trans heq
  added m free := by
    rcases h.added m free with hnone | ⟨hfresh, hnew⟩
    · exact h'.added m hnone
    · exact .inr ⟨hfresh, h'.directory m hnew⟩
  directory m there := h'.directory m (h.directory m there)
  file m content there := by
    obtain ⟨content', there'⟩ := h.file m content there
    exact h'.file m content' there'
  interference := h'.interference.trans h.interference
  log log hlog := h.log log (h'.log log hlog)

/-- Directories at locations of one kind are directories at locations of a wider one. -/
theorem Grown.mono (h : Grown fresh v v') (wider : ∀ m, fresh m → fresh' m) :
    Grown fresh' v v' where
  kept := h.kept
  added m free := (h.added m free).imp_right fun ⟨hfresh, hnew⟩ => ⟨wider m hfresh, hnew⟩
  directory := h.directory
  file := h.file
  interference := h.interference
  log := h.log

/-- No link comes from growing. -/
theorem Grown.linkless (h : Grown fresh v v') (linkless : v.tree.Linkless) : v'.tree.Linkless := by
  intro m target hget
  rcases hold : v.tree.get? m with _ | _ | content | old
  · rcases h.added m hold with hnone | ⟨-, hnew⟩
    · rw [hnone] at hget
      cases hget
    · rw [hnew] at hget
      cases hget
  · rw [h.directory m hold] at hget
    cases hget
  · obtain ⟨content', hfile⟩ := h.file m content hold
    rw [hfile] at hget
    cases hget
  · exact linkless m old hold

/-- One more record adds nothing. -/
theorem Grown.logged (h : Grown fresh v v') (r : Record) : Grown fresh v (v'.logged r) := by
  have same := v'.sameWays_logged r
  refine h.trans ⟨fun m apart _ => get?_logged apart r, fun m free => .inl (get?_logged_eq_none.2 free),
    fun m => (same.directory m).1, fun m content there => ?_, v'.interference_logged r,
    fun log hlog => ?_⟩
  · rcases hnew : (v'.logged r).tree.get? m with _ | _ | content' | target
    · rw [get?_logged_eq_none.1 hnew] at there
      cases there
    · rw [(same.directory m).2 hnew] at there
      cases there
    · exact ⟨content', rfl⟩
    · rw [(same.link m target).2 hnew] at there
      cases there
  · rwa [log_logged] at hlog

/-- **A directory found by a normal path** is still found after the volume has grown. -/
theorem Grown.stat_eq_directory (h : Grown fresh v v') (linkless : v.tree.Linkless)
    (normal : p.IsNormal) (there : v.stat p = .directory) : v'.stat p = .directory := by
  obtain ⟨visible, l, hlocate, stands⟩ := Volume.stat_eq_directory.1 there
  obtain ⟨short, walk⟩ := Tree.locate_eq_ok.1 hlocate
  rw [normal.steps] at walk
  cases walk with
  | root tail =>
    have walk' := tail.of_directories h.directory linkless (h.linkless linkless)
    exact Volume.stat_eq_directory.2 ⟨by rw [h.interference, visible], l,
      Tree.locate_eq_ok.2 ⟨short, by rw [normal.steps]; exact .root walk'⟩, h.directory l stands⟩

/-- **Making a directory by a normal path** adds directories on the way to it, and nothing else. -/
theorem grown_createDirectory (linkless : v.tree.Linkless) (normal : p.IsNormal) :
    Grown (· <+: p.names) v (v.createDirectory p).2 := by
  have grows := (Tree.makes_createDirectory linkless normal).grows
  rw [createDirectory, afterAttempt]
  split
  · exact .refl _ v
  · exact ⟨fun m _ => grows.get?_eq,
      fun m free => (grows m).imp (fun heq => heq.trans free) fun hnew => ⟨hnew.1, hnew.2.2⟩,
      fun m => grows.directory,
      fun m content there => ⟨content, (grows.get?_eq (by simp [there])).trans there⟩, rfl,
      fun log => Option.eq_some_of_filter_eq_some⟩

/-- **Where a directory was made, one is found**, unless looks are refused. -/
theorem stat_of_createDirectory (linkless : v.tree.Linkless) (normal : p.IsNormal)
    (visible : v.interference.refusal .stat p = none) (h : (v.createDirectory p).1 = .ok ()) :
    (v.createDirectory p).2.stat p = .directory := by
  rw [createDirectory, afterAttempt] at h ⊢
  split at h
  · cases h
  · simp only [Volume.stat, interference_withTree, visible, tree_withTree]
    exact Tree.stat_of_createDirectory linkless normal h

end Volume

end FileShell
