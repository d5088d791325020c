import FileShell.Proofs.Text.Sorting
import FileShell.Proofs.Volume.Effects
import FileShell.Proofs.Volume.Linkless

/-! # What removing takes away

On a tree without links an operation that removes something by a normal path takes away what stands
at the location of its names, and if the directory there is removed with all that lies below it, what
lies below. Everything else stays (`Prunes`).

* **`prunes_of_removeFile`**, **`prunes_of_removeDirectory`** — one entry goes.
* **`prunes_removeAll`** — a directory goes with what lies below it, or some of that.
* **`exists_of_removeAll`** — a directory that is there goes altogether.
* **`Volume.Untouched`** — nothing but records lies between two volumes. -/

namespace FileShell

namespace Tree

variable {t t' t'' : Tree} {lost lost' : Location → Prop} {l m : Location} {p : Path}

/-! ## Pruned trees -/

/-- **A tree from which some entries were taken**, all of them at locations of a kind. -/
def Prunes (lost : Location → Prop) (t t' : Tree) : Prop :=
  ∀ m, t'.get? m = t.get? m ∨ lost m ∧ t'.get? m = none

theorem Prunes.refl (lost : Location → Prop) (t : Tree) : Prunes lost t t := fun _ => .inl rfl

theorem Prunes.trans (h : Prunes lost t t') (h' : Prunes lost t' t'') : Prunes lost t t'' := by
  intro m
  rcases h' m with heq | hnone
  · rw [heq]
    exact h m
  · exact .inr hnone

/-- Entries at locations of one kind are entries at locations of a wider one. -/
theorem Prunes.mono (h : Prunes lost t t') (wider : ∀ m, lost m → lost' m) : Prunes lost' t t' :=
  fun m => (h m).imp_right fun ⟨hlost, hnone⟩ => ⟨wider m hlost, hnone⟩

/-- No link comes from pruning. -/
theorem Prunes.linkless (h : Prunes lost t t') (linkless : t.Linkless) : t'.Linkless := by
  intro m target hget
  rcases h m with heq | ⟨-, hnone⟩
  · exact linkless m target (heq ▸ hget)
  · rw [hnone] at hget
    cases hget

/-- One entry other than the root is taken. -/
theorem prunes_erase (h : l ≠ []) : Prunes (· = l) t (t.erase l) := by
  intro m
  rw [get?_erase h]
  by_cases hm : m = l
  · exact .inr ⟨hm, if_pos hm⟩
  · exact .inl (if_neg hm)

/-- All that lies below a location is taken. -/
theorem prunes_emptied (t : Tree) (l : Location) :
    Prunes (fun m => liesBelow l m = true) t (t.emptied l) := by
  intro m
  by_cases hm : m = []
  · subst hm
    exact .inl rfl
  · rw [get?_emptied t l hm]
    by_cases hbelow : liesBelow l m = true
    · exact .inr ⟨hbelow, if_pos hbelow⟩
    · exact .inl (if_neg hbelow)

/-! ## Listings -/

/-- Below the root something stands where the tree has an entry. -/
theorem get?_ne_none_iff (h : l ≠ []) : t.get? l ≠ none ↔ ∃ entry ∈ t.entries, entry.1 = l := by
  rw [get?, if_neg h, ne_eq, List.lookup_eq_none_iff]
  constructor
  · intro hsome
    by_contra hnone
    exact hsome fun entry hentry => bne_iff_ne.2 fun heq => hnone ⟨entry, hentry, heq.symm⟩
  · rintro ⟨entry, hentry, heq⟩ hnone
    exact bne_iff_ne.1 (hnone entry hentry) heq.symm

/-- **A listing shows the names of the entries** one name further down. -/
theorem mem_namesBelow {n : Text} : n ∈ t.namesBelow l ↔ t.get? (l ++ [n]) ≠ none := by
  rw [get?_ne_none_iff (by simp), namesBelow, Text.mem_sortBy, List.mem_eraseDups,
    List.mem_filterMap]
  refine exists_congr fun entry => and_congr_right fun _ => ?_
  constructor
  · intro h
    split at h
    · next hdrop => rw [← hdrop, List.dropLast_append_getLast? n h]
    · cases h
  · intro h
    simp [h]

/-- Each value is kept once. -/
theorem nodup_eraseDups (names : List Text) : names.eraseDups.Nodup := by
  induction hlength : names.length using Nat.strong_induction_on generalizing names with
  | _ length ih =>
    cases names with
    | nil => exact .nil
    | cons n names =>
      rw [List.eraseDups_cons]
      refine List.nodup_cons.2 ⟨by simp, ih _ ?_ _ rfl⟩
      rw [← hlength, List.length_cons]
      exact Nat.lt_succ_of_le (List.length_filter_le _ _)

/-- A listing shows no name twice. -/
theorem nodup_namesBelow (t : Tree) : (t.namesBelow l).Nodup :=
  (Text.sortBy_perm id _).nodup_iff.2 (nodup_eraseDups _)

/-! ## Removing by a normal path -/

/-- A normal path other than the root ends in a name, and the place is that of its names. -/
theorem place_of_isNormal {ending : Ending} (h : t.place p = .ok (l, ending))
    (linkless : t.Linkless) (normal : p.IsNormal) (below : p.names ≠ []) :
    ending = .name ∧ l = p.names := by
  obtain ⟨ns, n, hnames⟩ := (List.eq_nil_or_concat' p.names).resolve_left below
  obtain ⟨-, rfl, -⟩ := (place_eq_ok normal hnames).1 h
  exact ⟨rfl, eq_names_of_place h linkless normal⟩

/-- **A file removed by a normal path** is all that goes. -/
theorem prunes_of_removeFile (h : t.removeFile p = .ok t') (linkless : t.Linkless)
    (normal : p.IsNormal) : Prunes (· = p.names) t t' := by
  obtain ⟨l, hplace, -, free, rfl⟩ := removeFile_eq_ok.1 h
  obtain rfl := eq_names_of_place hplace linkless normal
  exact prunes_erase (ne_root free)

/-- **An empty directory is removed by a normal path** if one stands at the location of its names
and can be reached. -/
theorem removeDirectory_eq_ok (linkless : t.Linkless) (normal : p.IsNormal)
    (below : p.names ≠ []) :
    t.removeDirectory p = .ok t' ↔
      t.place p = .ok (p.names, .name) ∧ t.get? p.names = some .directory ∧
        t.namesBelow p.names = [] ∧ t' = t.erase p.names := by
  rw [removeDirectory, Outcome.bind_eq_ok]
  constructor
  · rintro ⟨⟨l, ending⟩, hplace, h⟩
    obtain ⟨rfl, rfl⟩ := place_of_isNormal hplace linkless normal below
    rcases hget : t.get? p.names with _ | _ | _ | _ <;> simp only [hget] at h
    · cases h
    · split at h
      · next hempty =>
        cases h
        exact ⟨hplace, rfl, List.isEmpty_iff.1 hempty, rfl⟩
      · cases h
    · cases h
    · cases h
  · rintro ⟨hplace, hget, hempty, rfl⟩
    exact ⟨_, hplace, by simp [hget, hempty]⟩

/-- **An empty directory removed by a normal path** is all that goes. -/
theorem prunes_of_removeDirectory (h : t.removeDirectory p = .ok t') (linkless : t.Linkless)
    (normal : p.IsNormal) (below : p.names ≠ []) : Prunes (· = p.names) t t' := by
  obtain ⟨-, -, -, rfl⟩ := (removeDirectory_eq_ok linkless normal below).1 h
  exact prunes_erase below

/-- A directory that was emptied goes, or it stays. -/
theorem prunes_removeEmptied (linkless : t.Linkless) (normal : p.IsNormal)
    (below : p.names ≠ []) : Prunes (· = p.names) t (t.removeEmptied p).2 := by
  unfold removeEmptied
  split
  · next removed h => exact prunes_of_removeDirectory h linkless normal below
  · exact .refl _ t
  · exact .refl _ t

/-- **A directory removed by a normal path** goes with what lies below it, and nothing else does,
also if it stays in the end. -/
theorem prunes_removeAll (linkless : t.Linkless) (normal : p.IsNormal) (below : p.names ≠ []) :
    Prunes (fun m => m = p.names ∨ liesBelow p.names m = true) t (t.removeAll p).2 := by
  unfold removeAll
  split
  · exact .refl _ t
  · next l hlocate =>
    obtain ⟨⟨place, ending⟩, hplace, h⟩ := Outcome.bind_eq_ok.1 hlocate
    obtain ⟨rfl, rfl⟩ := place_of_isNormal hplace linkless normal below
    obtain rfl : p.names = l := Except.ok.inj h
    split
    · exact .refl _ t
    · have hemptied := t.prunes_emptied p.names
      have hremoved := prunes_removeEmptied (hemptied.linkless linkless) normal below
      exact (hemptied.mono fun m hm => .inr hm).trans (hremoved.mono fun m hm => .inl hm)
    · exact .refl _ t
    · next hlink => exact absurd hlink (linkless _ _)

/-! ## What stood there is gone -/

/-- **An entry is taken away** at the location of a path's names. -/
structure Takes (p : Path) (t t' : Tree) : Prop where
  /-- It stood there. -/
  before : t.get? p.names ≠ none
  /-- It does not stand there any more. -/
  after : t'.get? p.names = none

/-- A file that is removed by a normal path was there. -/
theorem takes_of_removeFile (h : t.removeFile p = .ok t') (linkless : t.Linkless)
    (normal : p.IsNormal) : Takes p t t' := by
  obtain ⟨l, hplace, stands, free, rfl⟩ := removeFile_eq_ok.1 h
  obtain rfl := eq_names_of_place hplace linkless normal
  exact ⟨stands, get?_erase_self t (ne_root free)⟩

/-- So was a directory. -/
theorem takes_of_removeDirectory (h : t.removeDirectory p = .ok t') (linkless : t.Linkless)
    (normal : p.IsNormal) (below : p.names ≠ []) : Takes p t t' := by
  obtain ⟨-, hget, -, rfl⟩ := (removeDirectory_eq_ok linkless normal below).1 h
  exact ⟨by simp [hget], get?_erase_self t below⟩

/-- **A place that a normal path names stays its place** when what lies below it is taken away. -/
theorem place_emptied (h : t.place p = .ok (p.names, .name)) (linkless : t.Linkless)
    (normal : p.IsNormal) (below : p.names ≠ []) :
    (t.emptied p.names).place p = .ok (p.names, .name) := by
  obtain ⟨ns, n, hnames⟩ := (List.eq_nil_or_concat' p.names).resolve_left below
  have hlinkless : (t.emptied p.names).Linkless := (t.prunes_emptied p.names).linkless linkless
  obtain ⟨short, -, d, walk, inside, short', hplace⟩ := (place_eq_ok normal hnames).1 h
  -- the way leads through shorter locations, and none of them lies below the place
  have same : ∀ m : Location, m.length ≤ d.length → (t.emptied p.names).get? m = t.get? m := by
    intro m hm
    by_cases hroot : m = []
    · rw [hroot]
      rfl
    · have houtside : liesBelow p.names m = false := by
        rw [Bool.eq_false_iff]
        intro hbelow
        have hprefix := List.isPrefixOf_iff_prefix.1 (Bool.and_eq_true_iff.1 hbelow).1
        have hlength := hprefix.length_le
        rw [hplace, List.length_append, List.length_singleton] at hlength
        omega
      rw [get?_emptied t p.names hroot, houtside]
      rfl
  cases walk with
  | root tail =>
    have htail := tail.of_names linkless hlinkless same
    exact (place_eq_ok normal hnames).2
      ⟨short, rfl, d, .root htail, (same d (Nat.le_refl _)).trans inside, short', hplace⟩

/-- **A directory to which a normal path leads is removed** with all that lies below it. -/
theorem exists_of_removeAll (hlocate : t.locate p = .ok l) (directory : t.get? l = some .directory)
    (linkless : t.Linkless) (normal : p.IsNormal) (below : p.names ≠ []) :
    ∃ t', t.removeAll p = (.ok (), t') ∧ Takes p t t' := by
  obtain rfl := eq_names_of_locate hlocate linkless normal
  have hplace := place_of_locate hlocate linkless normal below
  have hentry : t.locateEntry p = .ok p.names := by rw [locateEntry, hplace]; rfl
  have hoff : liesBelow p.names p.names = false := by simp [liesBelow]
  have hempty : (t.emptied p.names).namesBelow p.names = [] := by
    rw [List.eq_nil_iff_forall_not_mem]
    intro n
    have hbelow : liesBelow p.names (p.names ++ [n]) = true := by simp [liesBelow]
    rw [mem_namesBelow, get?_emptied t p.names (by simp), if_pos hbelow]
    simp
  have hremoved : (t.emptied p.names).removeDirectory p = .ok ((t.emptied p.names).erase p.names) :=
    (removeDirectory_eq_ok ((t.prunes_emptied p.names).linkless linkless) normal below).2
      ⟨place_emptied hplace linkless normal below,
        by rw [get?_emptied t p.names below, hoff]; exact directory, hempty, rfl⟩
  refine ⟨(t.emptied p.names).erase p.names, ?_, by simp [directory], get?_erase_self _ below⟩
  unfold removeAll
  rw [hentry]
  simp only [directory]
  rw [removeEmptied, hremoved]

end Tree

namespace Volume

variable {v v' : Volume} {l : Location}

/-! ## Records in between -/

/-- **Nothing but records lies between two volumes.** -/
structure Untouched (v v' : Volume) : Prop where
  /-- Every path leads where it led. -/
  ways : Tree.SameWays v.tree v'.tree
  /-- The same operations are refused. -/
  interference : v'.interference = v.interference
  /-- Nothing has come or gone. -/
  present : ∀ l, v'.tree.get? l = none ↔ v.tree.get? l = none
  /-- Everything is as it was, the log apart. -/
  apart : ∀ l, v.LogApart l → v'.LogApart l ∧ v'.tree.get? l = v.tree.get? l

theorem Untouched.refl (v : Volume) : Untouched v v :=
  ⟨.refl v.tree, rfl, fun _ => .rfl, fun _ h => ⟨h, rfl⟩⟩

/-- A record does not make an entry, and does not take one away. -/
theorem get?_logged_eq_none {r : Record} :
    (v.logged r).tree.get? l = none ↔ v.tree.get? l = none := by
  have hextend (t : Tree) (k : Location) (bytes : ByteArray) :
      (t.extend k bytes).get? l = none ↔ t.get? l = none := by
    rcases t.extend_cases k bytes with ⟨old, hold, heq⟩ | heq
    · rw [heq]
      have free : t.get? k ≠ some .directory := by simp [hold]
      by_cases hl : l = k
      · rw [hl, hold, Tree.get?_set_self _ _ (Tree.ne_root free)]
        simp
      · rw [Tree.get?_set_ne _ _ hl]
    · rw [heq]
  unfold Volume.logged
  split
  · rfl
  · split
    · exact hextend _ _ _
    · rfl

/-- One more record touches nothing. -/
theorem Untouched.logged (h : Untouched v v') (r : Record) : Untouched v (v'.logged r) where
  ways := h.ways.trans (v'.sameWays_logged r)
  interference := (v'.interference_logged r).trans h.interference
  present l := get?_logged_eq_none.trans (h.present l)
  apart l hl := ⟨(h.apart l hl).1.logged r, (get?_logged (h.apart l hl).1 r).trans (h.apart l hl).2⟩

/-- Nor does one record less. -/
theorem Untouched.logged_left (h : Untouched v v') (r : Record) : Untouched (v.logged r) v' where
  ways := (v.sameWays_logged r).symm.trans h.ways
  interference := h.interference.trans (v.interference_logged r).symm
  present l := (h.present l).trans get?_logged_eq_none.symm
  apart l hl := by
    rw [LogApart, log_logged] at hl
    exact ⟨(h.apart l hl).1, (h.apart l hl).2.trans (get?_logged hl r).symm⟩

/-- What a path leads to is untouched, unless it is the file of the log. -/
theorem Untouched.contents?_eq {p : Path} (h : Untouched v v') (elsewhere : v.LogElsewhere p) :
    v'.tree.contents? p = v.tree.contents? p :=
  Tree.contents?_congr h.ways fun l hl => (h.apart l (elsewhere l hl)).2

end Volume

end FileShell
