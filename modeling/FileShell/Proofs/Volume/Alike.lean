import FileShell.Proofs.Text.Sorting
import FileShell.Proofs.Volume.Removal
import FileShell.Proofs.Volume.Thinned

/-! # Volumes that nothing but the log tells apart

Two runs that make different records soon have different bytes in the file of the log, and the same
entries everywhere else. No operation sees the difference unless it looks into that file: it
succeeds on both trees, or it fails on both for the same reason, and afterwards the trees are the
same again but for those bytes.

* **`Tree.SameBut`** — two trees have the same entries but for the bytes of files at some locations.
* **`Tree.copyFile_agree`** and the lemmas like it — an operation on two such trees.
* **`Volume.Alike`** — two volumes that nothing but their logs has made different. -/

namespace FileShell

namespace Tree

variable {loose : Location → Prop} {t t' t'' : Tree} {l : Location} {p : Path}

/-! ## Trees with the same entries -/

/-- **Two trees are the same but for the bytes of files** at locations of a kind. -/
def SameBut (loose : Location → Prop) (t t' : Tree) : Prop :=
  ∀ l, t'.get? l = t.get? l ∨
    loose l ∧ ∃ c c', t.get? l = some (.file c) ∧ t'.get? l = some (.file c')

theorem SameBut.refl (loose : Location → Prop) (t : Tree) : SameBut loose t t := fun _ => .inl rfl

theorem SameBut.symm (h : SameBut loose t t') : SameBut loose t' t := by
  intro l
  rcases h l with heq | ⟨hl, c, c', hget, hget'⟩
  · exact .inl heq.symm
  · exact .inr ⟨hl, c', c, hget', hget⟩

theorem SameBut.trans (h : SameBut loose t t') (h' : SameBut loose t' t'') :
    SameBut loose t t'' := by
  intro l
  rcases h l with heq | ⟨hl, c, c', hget, hget'⟩
  · rw [← heq]
    exact h' l
  · rcases h' l with heq | ⟨-, _, c'', -, hget''⟩
    · exact .inr ⟨hl, c, c', hget, heq.trans hget'⟩
    · exact .inr ⟨hl, c, c'', hget, hget''⟩

/-- **What can stand at one location** in two such trees. -/
theorem SameBut.cases (h : SameBut loose t t') (l : Location) :
    (t.get? l = none ∧ t'.get? l = none) ∨
      (t.get? l = some .directory ∧ t'.get? l = some .directory) ∨
      (∃ c c', t.get? l = some (.file c) ∧ t'.get? l = some (.file c') ∧ (c' = c ∨ loose l)) ∨
      ∃ target, t.get? l = some (.link target) ∧ t'.get? l = some (.link target) := by
  rcases h l with heq | ⟨hl, c, c', hget, hget'⟩
  · rw [heq]
    rcases t.get? l with _ | _ | c | target
    · exact .inl ⟨rfl, rfl⟩
    · exact .inr (.inl ⟨rfl, rfl⟩)
    · exact .inr (.inr (.inl ⟨c, c, rfl, rfl, .inl rfl⟩))
    · exact .inr (.inr (.inr ⟨target, rfl, rfl⟩))
  · exact .inr (.inr (.inl ⟨c, c', hget, hget', .inr hl⟩))

/-- Something stands at a location of both trees or of none. -/
theorem SameBut.get?_eq_none (h : SameBut loose t t') (l : Location) :
    t'.get? l = none ↔ t.get? l = none := by
  rcases h.cases l with ⟨hget, hget'⟩ | ⟨hget, hget'⟩ | ⟨c, c', hget, hget', -⟩ |
    ⟨_, hget, hget'⟩ <;> simp [hget, hget']

/-- **An entry put at the same location** of both trees; files may differ where they may. -/
theorem SameBut.set (h : SameBut loose t t') (l : Location) {e e' : Entry}
    (he : e' = e ∨ loose l ∧ ∃ c c', e = .file c ∧ e' = .file c') :
    SameBut loose (t.set l e) (t'.set l e') := by
  intro m
  by_cases hroot : m = []
  · exact .inl (by rw [hroot, get?_root, get?_root])
  · by_cases hm : m = l
    · subst hm
      rw [get?_set_self t _ hroot, get?_set_self t' _ hroot]
      rcases he with rfl | ⟨hl, c, c', rfl, rfl⟩
      · exact .inl rfl
      · exact .inr ⟨hl, c, c', rfl, rfl⟩
    · rw [get?_set_ne t _ hm, get?_set_ne t' _ hm]
      exact h m

/-- The same location cleared in both trees. -/
theorem SameBut.erase (h : SameBut loose t t') (l : Location) :
    SameBut loose (t.erase l) (t'.erase l) := by
  intro m
  by_cases hroot : m = []
  · exact .inl (by rw [hroot, get?_root, get?_root])
  · by_cases hm : m = l
    · subst hm
      exact .inl (by rw [get?_erase_self t hroot, get?_erase_self t' hroot])
    · rw [get?_erase_ne t hm, get?_erase_ne t' hm]
      exact h m

/-- The same location emptied in both trees. -/
theorem SameBut.emptied (h : SameBut loose t t') (l : Location) :
    SameBut loose (t.emptied l) (t'.emptied l) := by
  intro m
  by_cases hroot : m = []
  · exact .inl (by rw [hroot, get?_root, get?_root])
  · rw [get?_emptied t l hroot, get?_emptied t' l hroot]
    split
    · exact .inl rfl
    · exact h m

/-- Bytes added to a file show there alone. -/
theorem sameBut_extend (hl : loose l) (t : Tree) (bytes : ByteArray) :
    SameBut loose t (t.extend l bytes) := by
  intro m
  rcases t.extend_cases l bytes with ⟨old, hget, heq⟩ | heq
  · by_cases hm : m = l
    · subst hm
      have hroot : m ≠ [] := ne_root (t := t) (by simp [hget])
      exact .inr ⟨hl, old, _, hget, by rw [heq, get?_set_self t _ hroot]⟩
    · exact .inl (t.get?_extend_ne bytes hm)
  · exact .inl (by rw [heq])

/-! ## Paths -/

theorem enter_congr (h : SameBut loose t t') (l : Location) : t'.enter l = t.enter l := by
  unfold enter
  -- a directory is told from a link and from a file, and files are all the same here
  rcases h.cases l with ⟨hget, hget'⟩ | ⟨hget, hget'⟩ | ⟨c, c', hget, hget', -⟩ |
    ⟨_, hget, hget'⟩ <;> rw [hget, hget']

/-- No step of a walk looks into a file. -/
theorem walkWith_congr (h : SameBut loose t t') (purpose : Purpose)
    (jump : Location → List Step → Except FileError Location) (l : Location) (steps : List Step) :
    t'.walkWith purpose jump l steps = t.walkWith purpose jump l steps := by
  induction steps generalizing l with
  | nil => rfl
  | cons step rest ih =>
    cases step with
    | root => exact ih []
    | here | slash | up =>
      simp only [walkWith, enter_congr h]
      exact congrArg (t.enter l >>= ·) (funext fun directory => ih _)
    | name n =>
      simp only [walkWith, enter_congr h]
      refine congrArg (t.enter l >>= ·) (funext fun directory => ?_)
      -- nothing is written under a name with a slash behind it, whatever stands there
      split
      · rfl
      · refine congrArg (nameIn directory n >>= ·) (funext fun next => ?_)
        rcases h.cases next with ⟨hget, hget'⟩ | ⟨hget, hget'⟩ | ⟨c, c', hget, hget', -⟩ |
          ⟨_, hget, hget'⟩
        · rw [hget, hget']
          exact ih next
        · rw [hget, hget']
          exact ih next
        · rw [hget, hget']
          exact ih next
        · rw [hget, hget']

theorem walk_congr (h : SameBut loose t t') (purpose : Purpose) (links : Nat) :
    t'.walk purpose links = t.walk purpose links := by
  induction links with
  | zero => rfl
  | succ links ih =>
    funext l steps
    rw [walk, walk, ih]
    exact walkWith_congr h purpose _ l steps

theorem locateSteps_eq (h : SameBut loose t t') (steps : List Step) :
    t'.locateSteps steps = t.locateSteps steps := by
  rw [locateSteps, locateSteps, walk_congr h]

/-- **A path leads to the same location**, or nowhere for the same reason. -/
theorem locate_eq (h : SameBut loose t t') (p : Path) : t'.locate p = t.locate p := by
  simp only [locate, locateSteps_eq h]

theorem locateForWriting_eq (h : SameBut loose t t') (p : Path) :
    t'.locateForWriting p = t.locateForWriting p := by
  simp only [locateForWriting, walk_congr h]

theorem placeSteps_eq (h : SameBut loose t t') (steps : List Step) :
    t'.placeSteps steps = t.placeSteps steps := by
  simp only [placeSteps, step, locateSteps_eq h, enter_congr h]

theorem place_eq (h : SameBut loose t t') (p : Path) : t'.place p = t.place p := by
  simp only [place, placeSteps_eq h]

theorem locateEntry_eq (h : SameBut loose t t') (p : Path) : t'.locateEntry p = t.locateEntry p := by
  simp only [locateEntry, place_eq h, locate_eq h]

/-! ## Looking -/

theorem stat_eq (h : SameBut loose t t') (p : Path) : t'.stat p = t.stat p := by
  unfold stat
  rw [locate_eq h]
  rcases t.locate p with _ | l
  · rfl
  · rcases h.cases l with ⟨hget, hget'⟩ | ⟨hget, hget'⟩ | ⟨c, c', hget, hget', -⟩ |
      ⟨_, hget, hget'⟩ <;> simp only [hget, hget']

/-- A listing shows each name once, so that it is the same for the same entries. -/
theorem namesBelow_eq (h : SameBut loose t t') (l : Location) :
    t'.namesBelow l = t.namesBelow l := by
  -- the same names are in both, in neither twice, and both are sorted
  have hperm : (t'.namesBelow l).Perm (t.namesBelow l) :=
    (List.perm_ext_iff_of_nodup t'.nodup_namesBelow t.nodup_namesBelow).2 fun n => by
      rw [mem_namesBelow, mem_namesBelow, ne_eq, h.get?_eq_none]
  exact hperm.eq_of_pairwise (fun _ _ _ _ hle hge => hle.antisymm hge)
    (Text.pairwise_sortBy id _) (Text.pairwise_sortBy id _)

theorem names_eq (h : SameBut loose t t') (p : Path) : t'.names p = t.names p := by
  simp only [names, locate_eq h, enter_congr h, namesBelow_eq h]

/-- The bytes at a location are there in both trees or in none. -/
theorem bytesAt_agree (h : SameBut loose t t') (l : Location) :
    Outcome.Agree (fun c c' => c' = c ∨ loose l) (t.bytesAt l) (t'.bytesAt l) := by
  unfold bytesAt
  rcases h.cases l with ⟨hget, hget'⟩ | ⟨hget, hget'⟩ | ⟨c, c', hget, hget', hc⟩ |
    ⟨_, hget, hget'⟩ <;> rw [hget, hget']
  · exact .error _
  · exact .error _
  · exact .ok hc
  · exact .error _

/-- **A text is read** from both trees alike, unless its file may differ. -/
theorem readText_eq (h : SameBut loose t t') (fixed : ∀ l, t.locate p = .ok l → ¬loose l) :
    t'.readText p = t.readText p := by
  rw [readText, readText, locate_eq h]
  rcases hl : t.locate p with e | l
  · rfl
  · have hbytes := bytesAt_agree h l
    rw [Outcome.ok_bind, Outcome.ok_bind]
    -- bytes that may differ are left out by hypothesis
    generalize t.bytesAt l = x, t'.bytesAt l = y at hbytes
    cases hbytes with
    | error e => rfl
    | ok hc => rw [hc.resolve_right (fixed l hl)]

/-! ## Writing, copying and removing files -/

/-- A file is opened in both trees or in none. -/
theorem openedBytes_agree (h : SameBut loose t t') (l : Location) :
    Outcome.Agree (fun c c' => c' = c ∨ loose l) (t.openedBytes l) (t'.openedBytes l) := by
  unfold openedBytes
  rcases h.cases l with ⟨hget, hget'⟩ | ⟨hget, hget'⟩ | ⟨c, c', hget, hget', hc⟩ |
    ⟨_, hget, hget'⟩ <;> rw [hget, hget']
  · exact .ok (.inl rfl)
  · exact .error _
  · exact .ok hc
  · exact .ok (.inl rfl)

/-- **A text is written** in both trees, or in neither for the same reason. -/
theorem write_agree (h : SameBut loose t t') (p : Path) (text : Text) (mode : WriteMode) :
    Outcome.Agree (SameBut loose) (t.write p text mode) (t'.write p text mode) := by
  rw [write_eq, write_eq, locateForWriting_eq h]
  refine (Outcome.Agree.refl _).bind fun l _ hl => ?_
  subst hl
  refine (openedBytes_agree h l).bind fun old old' hold => .ok (h.set l ?_)
  rcases hold with rfl | hl
  · exact .inl rfl
  · exact .inr ⟨hl, _, _, rfl, rfl⟩

/-- **A file is copied** in both trees, or in neither for the same reason. A file that may differ is
copied only if all of them may. -/
theorem copyFile_agree (h : SameBut loose t t') {source : Path}
    (clear : ∀ l, t.locate source = .ok l → loose l → ∀ m, loose m) (target : Path) :
    Outcome.Agree (SameBut loose) (t.copyFile source target) (t'.copyFile source target) := by
  unfold copyFile
  rw [locate_eq h, locateForWriting_eq h]
  rcases hsource : t.locate source with e | origin
  · exact .error e
  · refine (bytesAt_agree h origin).bind fun _ _ _ => ?_
    refine (Outcome.Agree.refl _).bind fun goal _ hgoal => ?_
    subst hgoal
    refine (openedBytes_agree h goal).bind fun _ _ _ => ?_
    -- the source is read once the target has been emptied
    have hopened : SameBut loose (t.set goal (.file .empty)) (t'.set goal (.file .empty)) :=
      h.set goal (.inl rfl)
    refine (bytesAt_agree hopened origin).bind fun c c' hc => .ok (hopened.set goal ?_)
    rcases hc with rfl | horigin
    · exact .inl rfl
    · exact .inr ⟨clear origin hsource horigin goal, c, c', rfl, rfl⟩

/-- **A file is removed** from both trees, or from neither for the same reason. -/
theorem removeFile_agree (h : SameBut loose t t') (p : Path) :
    Outcome.Agree (SameBut loose) (t.removeFile p) (t'.removeFile p) := by
  unfold removeFile
  rw [place_eq h]
  refine (Outcome.Agree.refl _).bind fun place _ hplace => ?_
  subst hplace
  obtain ⟨l, ending⟩ := place
  cases ending with
  | here | up | root => exact .error _
  | name =>
    rcases h.cases l with ⟨hget, hget'⟩ | ⟨hget, hget'⟩ | ⟨c, c', hget, hget', -⟩ |
      ⟨_, hget, hget'⟩ <;> simp only [hget, hget']
    · exact .error _
    · exact .error _
    · exact .ok (h.erase l)
    · exact .ok (h.erase l)
  | slash =>
    -- nothing is removed by a path that ends in a slash
    rcases h.cases l with ⟨hget, hget'⟩ | ⟨hget, hget'⟩ | ⟨c, c', hget, hget', -⟩ |
      ⟨_, hget, hget'⟩ <;> simp only [hget, hget'] <;> exact .error _

/-! ## Directories -/

/-- **An empty directory is removed** from both trees, or from neither for the same reason. -/
theorem removeDirectory_agree (h : SameBut loose t t') (p : Path) :
    Outcome.Agree (SameBut loose) (t.removeDirectory p) (t'.removeDirectory p) := by
  unfold removeDirectory
  rw [place_eq h]
  refine (Outcome.Agree.refl _).bind fun place _ hplace => ?_
  subst hplace
  obtain ⟨l, ending⟩ := place
  cases ending with
  | here | up => exact .error _
  | name | slash | root =>
    rcases h.cases l with ⟨hget, hget'⟩ | ⟨hget, hget'⟩ | ⟨c, c', hget, hget', -⟩ |
      ⟨_, hget, hget'⟩ <;> simp only [hget, hget', namesBelow_eq h]
    · exact .error _
    · split
      · exact .ok (h.erase l)
      · exact .error _
    · exact .error _
    · exact .error _

/-- **A change that may have changed something even if it fails** comes to the same in both trees. -/
structure Both (loose : Location → Prop) (x x' : Except FileError Unit × Tree) : Prop where
  outcome : x'.1 = x.1
  tree : SameBut loose x.2 x'.2

theorem removeEmptied_both (h : SameBut loose t t') (p : Path) :
    Both loose (t.removeEmptied p) (t'.removeEmptied p) := by
  have hremoved := removeDirectory_agree h p
  unfold removeEmptied
  generalize t.removeDirectory p = x, t'.removeDirectory p = y at hremoved
  cases hremoved with
  | ok related => exact ⟨rfl, related⟩
  | error e => cases e <;> exact ⟨rfl, h⟩

/-- **A directory is removed with all that lies below it**, as far as it can be. -/
theorem removeAll_both (h : SameBut loose t t') (p : Path) :
    Both loose (t.removeAll p) (t'.removeAll p) := by
  unfold removeAll
  rw [locateEntry_eq h]
  rcases t.locateEntry p with e | l
  · exact ⟨rfl, h⟩
  · rcases h.cases l with ⟨hget, hget'⟩ | ⟨hget, hget'⟩ | ⟨c, c', hget, hget', -⟩ |
      ⟨_, hget, hget'⟩ <;> simp only [hget, hget']
    · exact ⟨rfl, h⟩
    · exact removeEmptied_both (h.emptied l) p
    · exact ⟨rfl, h⟩
    · exact ⟨rfl, h.erase l⟩

theorem makeDirectory_agree (h : SameBut loose t t') (steps : List Step) :
    Outcome.Agree (SameBut loose) (t.makeDirectory steps) (t'.makeDirectory steps) := by
  unfold makeDirectory
  rw [placeSteps_eq h]
  refine (Outcome.Agree.refl _).bind fun place _ hplace => ?_
  subst hplace
  obtain ⟨l, -⟩ := place
  rcases h.cases l with ⟨hget, hget'⟩ | ⟨hget, hget'⟩ | ⟨c, c', hget, hget', -⟩ |
    ⟨_, hget, hget'⟩ <;> simp only [hget, hget']
  · exact .ok (h.set l (.inl rfl))
  · exact .error _
  · exact .error _
  · exact .error _

theorem unlessDirectory_both (h : SameBut loose t t') (steps : List Step) (e : FileError) :
    Both loose (t.unlessDirectory steps e) (t'.unlessDirectory steps e) := by
  have hthere : t'.isDirectoryAt steps = t.isDirectoryAt steps := by
    unfold isDirectoryAt
    rw [locateSteps_eq h]
    rcases t.locateSteps steps with _ | l
    · rfl
    · rcases h.cases l with ⟨hget, hget'⟩ | ⟨hget, hget'⟩ | ⟨c, c', hget, hget', -⟩ |
        ⟨_, hget, hget'⟩ <;> simp [hget, hget', Entry.isDirectory]
  unfold unlessDirectory
  rw [hthere]
  split
  · exact ⟨rfl, h⟩
  · exact ⟨rfl, h⟩

/-- A directory is made alike if those above it are. -/
theorem makeBelow_both {makeAbove : Tree → Except FileError Unit × Tree}
    (above : ∀ {u u'}, SameBut loose u u' → Both loose (makeAbove u) (makeAbove u'))
    (h : SameBut loose t t') (steps : List Step) :
    Both loose (t.makeBelow makeAbove steps) (t'.makeBelow makeAbove steps) := by
  have hmade := makeDirectory_agree h steps
  unfold makeBelow
  generalize t.makeDirectory steps = x, t'.makeDirectory steps = y at hmade
  cases hmade with
  | ok related => exact ⟨rfl, related⟩
  | error e =>
    cases e with
    | noEntry =>
      -- the directories above are missing: they are made first
      obtain ⟨houtcome, htree⟩ := above h
      generalize makeAbove t = x, makeAbove t' = y at houtcome htree
      obtain ⟨outcome, made⟩ := x
      obtain ⟨outcome', made'⟩ := y
      obtain rfl : outcome' = outcome := houtcome
      rcases outcome' with e | _
      · exact ⟨rfl, htree⟩
      · have hagain := makeDirectory_agree htree steps
        simp only
        generalize made.makeDirectory steps = x, made'.makeDirectory steps = y at hagain
        cases hagain with
        | ok related => exact ⟨rfl, related⟩
        | error e => exact unlessDirectory_both htree steps e
    | alreadyExists | notDirectory | isDirectory | invalidPath | notEmpty | nameTooLong
    | tooManyLinks | invalidText | refused reason => exact unlessDirectory_both h steps _

theorem makeDirectories_both (parts : List Part) (h : SameBut loose t t') :
    Both loose (makeDirectories parts t) (makeDirectories parts t') := by
  induction parts generalizing t t' with
  | nil => exact ⟨rfl, h⟩
  | cons part above ih => exact makeBelow_both (fun h => ih h) h _

/-- **A directory is made together with the missing ones above it**, as far as it can be. -/
theorem createDirectory_both (h : SameBut loose t t') (p : Path) :
    Both loose (t.createDirectory p) (t'.createDirectory p) := by
  unfold createDirectory
  split
  · exact ⟨rfl, h⟩
  · exact makeBelow_both (fun h => makeDirectories_both _ h) h _

end Tree

/-! ## Changes that open no log -/

/-- **A change opens no log**: one that is open afterwards was open before. -/
def OpensNoLog (change : Volume → Except FileError Unit × Volume) : Prop :=
  ∀ v log, (change v).2.log = some log → v.log = some log

namespace Volume

variable {v : Volume} {log : LogFile}

theorem log_of_withTree {tree : Tree} (h : (v.withTree tree).log = some log) : v.log = some log :=
  Option.eq_some_of_filter_eq_some h

theorem log_of_afterChange {outcome : Except FileError Tree}
    (h : (v.afterChange outcome).2.log = some log) : v.log = some log := by
  cases outcome with
  | ok tree => exact log_of_withTree h
  | error e => exact h

theorem log_of_afterAttempt {o : Operation} {p : Path} {outcome : Except FileError Unit × Tree}
    (h : (v.afterAttempt o p outcome).2.log = some log) : v.log = some log := by
  unfold afterAttempt at h
  split at h
  · exact h
  · exact log_of_withTree h

end Volume

theorem opensNoLog_write (p : Path) (text : Text) (mode : WriteMode) :
    OpensNoLog (·.write p text mode) := fun _ _ h => Volume.log_of_afterChange h

theorem opensNoLog_copyFile (source target : Path) : OpensNoLog (·.copyFile source target) :=
  fun _ _ h => Volume.log_of_afterChange h

theorem opensNoLog_removeFile (p : Path) : OpensNoLog (·.removeFile p) :=
  fun _ _ h => Volume.log_of_afterChange h

theorem opensNoLog_removeDirectory (p : Path) : OpensNoLog (·.removeDirectory p) :=
  fun _ _ h => Volume.log_of_afterChange h

theorem opensNoLog_removeAll (p : Path) : OpensNoLog (·.removeAll p) :=
  fun _ _ h => Volume.log_of_afterAttempt h

theorem opensNoLog_createDirectory (p : Path) : OpensNoLog (·.createDirectory p) :=
  fun _ _ h => Volume.log_of_afterAttempt h

/-- Where no log is open none is opened. -/
theorem OpensNoLog.log_eq_none {change : Volume → Except FileError Unit × Volume}
    (closed : OpensNoLog change) {v : Volume} (h : v.log = none) : (change v).2.log = none :=
  Option.eq_none_iff_forall_ne_some.2 fun log hlog => by
    have hopen := closed v log hlog
    rw [h] at hopen
    cases hopen

namespace Volume

variable {spared : Prop} {v v' : Volume} {p : Path}

/-! ## Volumes -/

/-- **Two volumes are alike** if nothing but their logs has made them different: the same operations
are refused, the same file is open for the log, and the entries differ in nothing but the bytes of
files. Where the log was spared, so that nobody has looked into it, these are the bytes of the log
alone. -/
structure Alike (spared : Prop) (v v' : Volume) : Prop where
  interference : v'.interference = v.interference
  log : v'.log = v.log
  tree : Tree.SameBut (fun l => spared → ¬v.LogApart l) v.tree v'.tree

theorem Alike.refl (spared : Prop) (v : Volume) : Alike spared v v := ⟨rfl, rfl, .refl _ v.tree⟩

/-- The entries are the same apart from the log if that was spared. -/
theorem Alike.get?_eq (h : Alike spared v v') (held : spared) {l : Location}
    (apart : v.LogApart l) : v'.tree.get? l = v.tree.get? l :=
  (h.tree l).resolve_right fun ⟨loose, _⟩ => loose held apart

theorem Alike.symm (h : Alike spared v v') : Alike spared v' v where
  interference := h.interference.symm
  log := h.log.symm
  tree := by
    simp only [LogApart, h.log]
    exact h.tree.symm

/-! ## Looking -/

theorem Alike.stat (h : Alike spared v v') (p : Path) : v'.stat p = v.stat p := by
  unfold Volume.stat
  rw [h.interference, Tree.stat_eq h.tree]

theorem Alike.names (h : Alike spared v v') (p : Path) : v'.names p = v.names p := by
  unfold Volume.names unlessRefused
  rw [h.interference, Tree.names_eq h.tree]

/-- **A file is read alike** unless it is the log. -/
theorem Alike.readText_tree (h : Alike spared v v') (held : spared) (elsewhere : v.LogElsewhere p) :
    v'.tree.readText p = v.tree.readText p :=
  Tree.readText_eq h.tree fun l hl loose => loose held (elsewhere l hl)

/-! ## Changing -/

/-- A change of the trees. A log that was removed tells nothing apart any more. -/
theorem Alike.withTree (h : Alike spared v v') {tree tree' : Tree}
    (same : Tree.SameBut (fun l => spared → ¬v.LogApart l) tree tree') :
    Alike spared (v.withTree tree) (v'.withTree tree') where
  interference := h.interference
  log := by
    -- the log stays open where a file is left, which is so on both sides or on neither
    have hfile (l : Location) :
        (tree'.get? l).any Entry.isFile = (tree.get? l).any Entry.isFile := by
      rcases same.cases l with ⟨hget, hget'⟩ | ⟨hget, hget'⟩ | ⟨c, c', hget, hget', -⟩ |
        ⟨_, hget, hget'⟩ <;> simp [hget, hget', Entry.isFile]
    simp only [Volume.withTree, h.log, hfile]
  tree := by
    intro l
    rcases same l with heq | ⟨loose, c, c', hget, hget'⟩
    · exact .inl heq
    · refine .inr ⟨fun held apart => loose held fun log hlog hl => ?_, c, c', hget, hget'⟩
      -- a file stands where the log is, so it is still open
      have hopen : (v.withTree tree).log = some log := by
        simp [Volume.withTree, hlog, hl, hget, Entry.isFile]
      exact apart log hopen hl

/-- **A change is carried out on both volumes**, or on neither for the same reason. -/
theorem Alike.changed (h : Alike spared v v') (o : Operation) (p : Path)
    {outcome outcome' : Except FileError Tree}
    (agree : Outcome.Agree (Tree.SameBut fun l => spared → ¬v.LogApart l) outcome outcome') :
    (v'.afterChange (v'.unlessRefused o p outcome')).1 =
        (v.afterChange (v.unlessRefused o p outcome)).1 ∧
      Alike spared (v.afterChange (v.unlessRefused o p outcome)).2
        (v'.afterChange (v'.unlessRefused o p outcome')).2 := by
  unfold unlessRefused
  rw [h.interference]
  rcases v.interference.refusal o p with _ | reason
  · cases agree with
    | error e => exact ⟨rfl, h⟩
    | ok same => exact ⟨rfl, h.withTree same⟩
  · exact ⟨rfl, h⟩

/-- So is a change that may have changed something even if it fails. -/
theorem Alike.attempted (h : Alike spared v v') (o : Operation) (p : Path)
    {outcome outcome' : Except FileError Unit × Tree}
    (both : Tree.Both (fun l => spared → ¬v.LogApart l) outcome outcome') :
    (v'.afterAttempt o p outcome').1 = (v.afterAttempt o p outcome).1 ∧
      Alike spared (v.afterAttempt o p outcome).2 (v'.afterAttempt o p outcome').2 := by
  unfold afterAttempt
  rw [h.interference]
  rcases v.interference.refusal o p with _ | reason
  · exact ⟨both.outcome, h.withTree both.tree⟩
  · exact ⟨rfl, h⟩

theorem Alike.write (h : Alike spared v v') (p : Path) (text : Text) (mode : WriteMode) :
    (v'.write p text mode).1 = (v.write p text mode).1 ∧
      Alike spared (v.write p text mode).2 (v'.write p text mode).2 :=
  h.changed .write p (Tree.write_agree h.tree p text mode)

/-- A copy does not look into the log if that is to be spared. -/
theorem Alike.copyFile (h : Alike spared v v') {source : Path}
    (elsewhere : spared → v.LogElsewhere source) (target : Path) :
    (v'.copyFile source target).1 = (v.copyFile source target).1 ∧
      Alike spared (v.copyFile source target).2 (v'.copyFile source target).2 :=
  h.changed .copyFile source <| Tree.copyFile_agree h.tree
    (fun l hl loose _ held => absurd (elsewhere held l hl) (loose held)) target

theorem Alike.removeFile (h : Alike spared v v') (p : Path) :
    (v'.removeFile p).1 = (v.removeFile p).1 ∧
      Alike spared (v.removeFile p).2 (v'.removeFile p).2 :=
  h.changed .removeFile p (Tree.removeFile_agree h.tree p)

theorem Alike.removeDirectory (h : Alike spared v v') (p : Path) :
    (v'.removeDirectory p).1 = (v.removeDirectory p).1 ∧
      Alike spared (v.removeDirectory p).2 (v'.removeDirectory p).2 :=
  h.changed .removeDirectory p (Tree.removeDirectory_agree h.tree p)

theorem Alike.removeAll (h : Alike spared v v') (p : Path) :
    (v'.removeAll p).1 = (v.removeAll p).1 ∧ Alike spared (v.removeAll p).2 (v'.removeAll p).2 :=
  h.attempted .removeAll p (Tree.removeAll_both h.tree p)

theorem Alike.createDirectory (h : Alike spared v v') (p : Path) :
    (v'.createDirectory p).1 = (v.createDirectory p).1 ∧
      Alike spared (v.createDirectory p).2 (v'.createDirectory p).2 :=
  h.attempted .createDirectory p (Tree.createDirectory_both h.tree p)

/-! ## Records -/

/-- **A record does not show** on the volume on which it is made. -/
theorem Alike.logged_right (h : Alike spared v v') (r : Record) : Alike spared v (v'.logged r) := by
  refine ⟨(v'.interference_logged r).trans h.interference, (v'.log_logged r).trans h.log, ?_⟩
  refine h.tree.trans ?_
  unfold Volume.logged
  split
  · exact .refl _ _
  · next log hlog =>
    split
    · exact Tree.sameBut_extend (fun _ apart => apart log (h.log ▸ hlog) rfl) _ _
    · exact .refl _ _

/-- **Whatever is recorded on either volume**, they stay alike. -/
theorem Alike.logged (h : Alike spared v v') (r r' : Record) :
    Alike spared (v.logged r) (v'.logged r') :=
  ((h.logged_right r').symm.logged_right r).symm

/-! ## Paths that do not lead to the log -/

/-- **A copy brings no path to the log**: every path leads where it led. -/
theorem LogElsewhere.copyFile (h : v.LogElsewhere p) (source target : Path) :
    (v.copyFile source target).2.LogElsewhere p := by
  rcases v.changed_cases .copyFile source (v.tree.copyFile source target) with
    ⟨tree, -, hcopy, heq⟩ | ⟨-, e, heq⟩
  · obtain ⟨origin, goal, content, -, -, -, same, -⟩ := Tree.exists_of_copyFile_eq_ok hcopy
    rw [Volume.copyFile, heq]
    exact h.withTree same
  · rw [Volume.copyFile, heq]
    exact h

/-- **Nor does the removal of a file or a link**: what a path still leads to it led to before. -/
theorem LogElsewhere.removeFile (h : v.LogElsewhere p) (q : Path) :
    (v.removeFile q).2.LogElsewhere p := by
  rcases v.changed_cases .removeFile q (v.tree.removeFile q) with
    ⟨tree, -, hremove, heq⟩ | ⟨-, e, heq⟩
  · obtain ⟨place, -, -, free, rfl⟩ := Tree.removeFile_eq_ok.1 hremove
    rw [Volume.removeFile, heq]
    intro l hl log hlog hlocation
    obtain ⟨hopen, hfile⟩ := Option.filter_eq_some_iff.1 hlog
    have stands : (v.tree.erase place).get? l ≠ none := by
      rintro hnone
      simp [hlocation, hnone] at hfile
    exact h l ((Tree.thinned_erase free).locate hl stands) log hopen hlocation
  · rw [Volume.removeFile, heq]
    exact h

/-- **None of some paths leads to the log**, so that what is in it does not matter to who looks into
their files. -/
def LogNotAmong (v : Volume) (paths : List Path) : Prop := ∀ p ∈ paths, v.LogElsewhere p

variable {paths : List Path}

theorem LogNotAmong.logged (h : v.LogNotAmong paths) (r : Record) :
    (v.logged r).LogNotAmong paths := fun p hp => (h p hp).logged r

theorem LogNotAmong.copyFile (h : v.LogNotAmong paths) (source target : Path) :
    (v.copyFile source target).2.LogNotAmong paths := fun p hp => (h p hp).copyFile source target

theorem LogNotAmong.removeFile (h : v.LogNotAmong paths) (q : Path) :
    (v.removeFile q).2.LogNotAmong paths := fun p hp => (h p hp).removeFile q

end Volume

end FileShell
