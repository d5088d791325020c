import FileShell.Proofs.Path.Normal
import FileShell.Proofs.Volume.Changes

/-! # Trees without links

Where there are no links a normal path leads to the location of its names, if it leads anywhere. So
different normal paths lead to different places, and what is done at the end of one leaves the
others alone. -/

namespace FileShell.Tree

/-- **A tree without links.** -/
def Linkless (t : Tree) : Prop := ∀ l target, t.get? l ≠ some (.link target)

variable {t t' : Tree} {purpose : Purpose} {links : Nat} {l m : Location} {ns : List Text}
  {n : Text} {p q : Path}

/-- A tree has no links if none of its entries is one. -/
theorem linkless_of_entries (h : ∀ entry ∈ t.entries, ∀ target, entry.2 ≠ .link target) :
    t.Linkless := by
  intro l target hget
  rw [get?] at hget
  split at hget
  · cases hget
  · obtain ⟨_, _, hentries, -⟩ := List.lookup_eq_some_iff.1 hget
    exact h (l, .link target) (by simp [hentries]) target rfl

/-- Trees with the same ways are both without links or neither. -/
theorem Linkless.congr (h : t.Linkless) (same : SameWays t t') : t'.Linkless :=
  fun l target hget => h l target ((same.link l target).2 hget)

/-! ## Walks along names -/

/-- Without links a walk along names arrives at their location. -/
theorem Walks.eq_append (h : t.Walks purpose links l (ns.map .name) m) (linkless : t.Linkless) :
    m = l ++ ns := by
  induction ns generalizing l with
  | nil =>
    cases h
    simp
  | cons n ns ih =>
    cases h with
    | name inside allowed short plain tail => simpa using ih tail
    | link inside allowed short stands tail => exact absurd stands (linkless _ _)

/-- Without links a walk along names has come through the directory of the last one. -/
theorem Walks.through (h : t.Walks purpose links l ((ns ++ [n]).map .name) m)
    (linkless : t.Linkless) :
    t.Walks purpose links l (ns.map .name) (l ++ ns) ∧ t.get? (l ++ ns) = some .directory ∧
      n.byteCount ≤ maxNameBytes := by
  induction ns generalizing l with
  | nil =>
    cases h with
    | name inside allowed short plain tail =>
      rw [List.append_nil]
      exact ⟨.done, inside, short⟩
    | link inside allowed short stands tail => exact absurd stands (linkless _ _)
  | cons k ns ih =>
    cases h with
    | name inside allowed short plain tail =>
      obtain ⟨walk, inside', short'⟩ := ih tail
      have hl : l ++ k :: ns = l ++ [k] ++ ns := by simp
      refine ⟨.name inside (fun hp hslash => ?_) short plain (hl ▸ walk), hl ▸ inside', short'⟩
      -- names are no slash
      rcases ns with _ | ⟨_, _⟩ <;> cases hslash
    | link inside allowed short stands tail => exact absurd stands (linkless _ _)

/-- Without links a walk along names is one in every tree that has the same entries on the way. -/
theorem Walks.of_names (h : t.Walks purpose links l (ns.map .name) m) (linkless : t.Linkless)
    (linkless' : t'.Linkless) (same : ∀ k : Location, k.length ≤ m.length → t'.get? k = t.get? k) :
    t'.Walks purpose links l (ns.map .name) m := by
  induction ns generalizing l with
  | nil =>
    cases h
    exact .done
  | cons n ns ih =>
    have hend := h.eq_append linkless
    cases h with
    | name inside allowed short plain tail =>
      have hlength : l.length ≤ m.length := by simp [hend]
      exact .name ((same l hlength).trans inside) allowed short (fun target => linkless' _ target)
        (ih tail)
    | link inside allowed short stands tail => exact absurd stands (linkless _ _)

/-! ## Normal paths -/

/-- **A normal path leads to the location of its names.** -/
theorem eq_names_of_locate (h : t.locate p = .ok l) (linkless : t.Linkless) (normal : p.IsNormal) :
    l = p.names := by
  have walk := (locate_eq_ok.1 h).2
  rw [normal.steps] at walk
  cases walk with
  | root tail => simpa using tail.eq_append linkless

/-- **Different normal paths lead to different places.** -/
theorem eq_of_locate (hp : t.locate p = .ok l) (hq : t.locate q = .ok l) (linkless : t.Linkless)
    (normal : p.IsNormal) (normal' : q.IsNormal) : p = q :=
  normal.ext normal' ((eq_names_of_locate hp linkless normal).symm.trans
    (eq_names_of_locate hq linkless normal'))

/-- **The place that the last of some names has** is found in the directory that the names before it
lead to. -/
theorem placeSteps_eq_ok {ending : Ending} :
    t.placeSteps (.root :: (ns ++ [n]).map .name) = .ok (l, ending) ↔
      ending = .name ∧ ∃ d,
        t.Walks .visit maxLinks [] (.root :: ns.map .name) d ∧ t.get? d = some .directory ∧
        n.byteCount ≤ maxNameBytes ∧ l = d ++ [n] := by
  have hplace : t.placeSteps (.root :: (ns ++ [n]).map .name) = (do
      return (← t.step (← t.locateSteps (.root :: ns.map .name)) n, .name)) := by
    simp [placeSteps]
  rw [hplace]
  constructor
  · intro h
    obtain ⟨d, walk, h⟩ := Outcome.bind_eq_ok.1 h
    obtain ⟨_, hstep, h⟩ := Outcome.bind_eq_ok.1 h
    obtain ⟨inside, short, rfl⟩ := step_eq_ok.1 hstep
    cases h
    exact ⟨rfl, d, walk_eq_ok_iff.1 walk, inside, short, rfl⟩
  · rintro ⟨rfl, d, walk, inside, short, rfl⟩
    exact Outcome.bind_eq_ok.2 ⟨d, walk_eq_ok_iff.2 walk,
      Outcome.bind_eq_ok.2 ⟨d ++ [n], step_eq_ok.2 ⟨inside, short, rfl⟩, rfl⟩⟩

/-- **The place that the end of a normal path names** is found in the directory that the names
before the last one lead to. -/
theorem place_eq_ok (normal : p.IsNormal) (hnames : p.names = ns ++ [n]) {ending : Ending} :
    t.place p = .ok (l, ending) ↔
      p.text.byteCount ≤ maxPathBytes ∧ ending = .name ∧ ∃ d,
        t.Walks .visit maxLinks [] (.root :: ns.map .name) d ∧ t.get? d = some .directory ∧
        n.byteCount ≤ maxNameBytes ∧ l = d ++ [n] := by
  have hsteps : p.steps = .root :: ((ns ++ [n]).map .name) := by rw [normal.steps, hnames]
  rw [place, Outcome.bind_eq_ok]
  simp only [checkedSteps_eq_ok]
  constructor
  · rintro ⟨_, ⟨short, rfl⟩, h⟩
    rw [hsteps] at h
    exact ⟨short, placeSteps_eq_ok.1 h⟩
  · rintro ⟨short, h⟩
    exact ⟨_, ⟨short, rfl⟩, by rw [hsteps]; exact placeSteps_eq_ok.2 h⟩

/-- Without names there is no place but the root. -/
theorem place_root (normal : p.IsNormal) (hnames : p.names = []) {ending : Ending}
    (h : t.place p = .ok (l, ending)) : ending = .root := by
  rw [place, Outcome.bind_eq_ok] at h
  obtain ⟨steps, hsteps, h⟩ := h
  obtain ⟨-, rfl⟩ := checkedSteps_eq_ok.1 hsteps
  rw [normal.steps, hnames] at h
  cases h
  rfl

/-- **Where a normal path leads, its end names the place**, unless that is the root. -/
theorem place_of_locate (h : t.locate p = .ok l) (linkless : t.Linkless) (normal : p.IsNormal)
    (below : l ≠ []) : t.place p = .ok (l, .name) := by
  obtain ⟨short, walk⟩ := locate_eq_ok.1 h
  obtain rfl := eq_names_of_locate h linkless normal
  obtain ⟨ns, n, hnames⟩ := (List.eq_nil_or_concat p.names).resolve_left below
  rw [normal.steps] at walk
  cases walk with
  | root tail =>
    rw [hnames, List.concat_eq_append] at tail ⊢
    obtain ⟨walk, inside, short'⟩ := tail.through linkless
    exact (place_eq_ok normal (by rw [hnames, List.concat_eq_append])).2
      ⟨short, rfl, ns, .root walk, inside, short', rfl⟩

/-- A place that a normal path names is the location of its names. -/
theorem eq_names_of_place (h : t.place p = .ok (l, .name)) (linkless : t.Linkless)
    (normal : p.IsNormal) : l = p.names := by
  rcases List.eq_nil_or_concat p.names with hnames | ⟨ns, n, hnames⟩
  · cases place_root normal hnames h
  · rw [List.concat_eq_append] at hnames
    obtain ⟨-, -, d, walk, -, -, rfl⟩ := (place_eq_ok normal hnames).1 h
    cases walk with
    | root tail => rw [hnames, tail.eq_append linkless, List.nil_append]

/-! ## Removing by a normal path -/

/-- **A file that is removed by a normal path** is gone, and every other normal path keeps what it
led to. -/
theorem exists_of_removeFile_eq_ok (h : t.removeFile p = .ok t') (linkless : t.Linkless)
    (normal : p.IsNormal) :
    SameWays t t' ∧ t'.contents? p = none ∧
      ∀ q, q.IsNormal → q ≠ p → t'.contents? q = t.contents? q := by
  obtain ⟨l, hplace, stands, free, rfl⟩ := removeFile_eq_ok.1 h
  obtain rfl := eq_names_of_place hplace linkless normal
  have same := sameWays_erase free (linkless _)
  refine ⟨same, ?_, fun q hq hne => contents?_congr same fun l hl => get?_erase_ne t ?_⟩
  · rw [Option.eq_none_iff_forall_ne_some]
    intro content hcontent
    -- whatever the path leads to afterwards is the place that was cleared
    obtain ⟨l, found, hget⟩ := contents?_eq_some.1 hcontent
    obtain rfl := eq_names_of_locate found (linkless.congr same) normal
    rw [get?_erase_self t (ne_root free)] at hget
    cases hget
  · rintro rfl
    exact hne (hq.ext normal (eq_names_of_locate hl linkless hq).symm)

/-- **A file can be removed by the normal path that leads to it.** -/
theorem removeFile_of_contents? {content : ByteArray} (h : t.contents? p = some content)
    (linkless : t.Linkless) (normal : p.IsNormal) : ∃ t', t.removeFile p = .ok t' := by
  obtain ⟨l, found, stands⟩ := contents?_eq_some.1 h
  have free : t.get? l ≠ some .directory := by simp [stands]
  exact ⟨_, removeFile_eq_ok.2
    ⟨l, place_of_locate found linkless normal (ne_root free), by simp [stands], free, rfl⟩⟩

end FileShell.Tree
