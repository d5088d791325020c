import FileShell.Proofs.Outcome
import FileShell.Volume.Walk

/-! # Walks through a tree

A walk that arrives is a derivation (`Tree.Walks`), one rule for each kind of step and two for a
name: it may stand for a link or not. What holds of the places where walks arrive is shown by
induction on it.

* **`walk_eq_ok_iff`** — the derivations are the walks.
* **`Walks.grounded`** — a walk arrives below directories, and not at a link.
* **`Walks.write_of_not_directory`** — where a walk arrives at a file, that file is the one written.
* **`Walks.congr`** — trees with the same directories and the same links have the same walks. -/

namespace FileShell.Tree

/-- **A walk that arrives**, with at most as many links followed as the number says. -/
inductive Walks (t : Tree) (purpose : Purpose) : Nat → Location → List Step → Location → Prop
  /-- No step is left. -/
  | done {links : Nat} {l : Location} : Walks t purpose links l [] l
  /-- To the root. -/
  | root {links : Nat} {l m : Location} {rest : List Step}
      (tail : Walks t purpose links [] rest m) : Walks t purpose links l (.root :: rest) m
  /-- To the same directory, by a dot. -/
  | here {links : Nat} {l m : Location} {rest : List Step} (inside : t.get? l = some .directory)
      (tail : Walks t purpose links l rest m) : Walks t purpose links l (.here :: rest) m
  /-- To the same directory, by a slash. -/
  | slash {links : Nat} {l m : Location} {rest : List Step} (inside : t.get? l = some .directory)
      (tail : Walks t purpose links l rest m) : Walks t purpose links l (.slash :: rest) m
  /-- To the directory above. -/
  | up {links : Nat} {l m : Location} {rest : List Step} (inside : t.get? l = some .directory)
      (tail : Walks t purpose links l.dropLast rest m) : Walks t purpose links l (.up :: rest) m
  /-- To the entry of a name, which is no link. -/
  | name {links : Nat} {l m : Location} {n : Text} {rest : List Step}
      (inside : t.get? l = some .directory) (allowed : purpose = .write → rest ≠ [.slash])
      (short : n.byteCount ≤ maxNameBytes)
      (plain : ∀ target, t.get? (l ++ [n]) ≠ some (.link target))
      (tail : Walks t purpose links (l ++ [n]) rest m) : Walks t purpose links l (.name n :: rest) m
  /-- Along the target of a link. -/
  | link {links : Nat} {l m : Location} {n target : Text} {rest : List Step}
      (inside : t.get? l = some .directory) (allowed : purpose = .write → rest ≠ [.slash])
      (short : n.byteCount ≤ maxNameBytes) (stands : t.get? (l ++ [n]) = some (.link target))
      (tail : Walks t purpose links l ((Path.mk target).steps ++ rest) m) :
      Walks t purpose (links + 1) l (.name n :: rest) m

/-! ## The derivations are the walks -/

/-- Only directories are entered. -/
theorem enter_eq_ok {t : Tree} {l m : Location} :
    t.enter l = .ok m ↔ t.get? l = some .directory ∧ m = l := by
  unfold enter
  rcases t.get? l with _ | _ | _ | _ <;> simp [eq_comm]

/-- A name that is not too long has its place in the directory. -/
theorem nameIn_eq_ok {l m : Location} {n : Text} :
    nameIn l n = .ok m ↔ n.byteCount ≤ maxNameBytes ∧ m = l ++ [n] := by
  unfold nameIn
  split
  · next h => simp [Nat.not_le.2 h]
  · next h => simp [Nat.not_lt.1 h, eq_comm]

variable {t t' : Tree} {purpose : Purpose} {links : Nat} {l m : Location} {steps : List Step}

/-- A step that goes on from a directory. -/
theorem enter_bind_eq_ok {f : Location → Except FileError Location} :
    (t.enter l >>= f) = .ok m ↔ t.get? l = some .directory ∧ f l = .ok m := by
  rw [Outcome.bind_eq_ok]
  simp only [enter_eq_ok]
  constructor
  · rintro ⟨_, ⟨inside, rfl⟩, h⟩
    exact ⟨inside, h⟩
  · rintro ⟨inside, h⟩
    exact ⟨l, ⟨inside, rfl⟩, h⟩

/-- The place of a name in a directory. -/
theorem step_eq_ok {n : Text} :
    t.step l n = .ok m ↔
      t.get? l = some .directory ∧ n.byteCount ≤ maxNameBytes ∧ m = l ++ [n] := by
  rw [step, enter_bind_eq_ok, nameIn_eq_ok]

/-- **A walk from a name on** goes along the target of a link, or on from the entry. -/
theorem walkWith_name_eq_ok {jump : Location → List Step → Except FileError Location} {n : Text} :
    walkWith t purpose jump l (.name n :: steps) = .ok m ↔
      t.get? l = some .directory ∧ (purpose = .write → steps ≠ [.slash]) ∧
      n.byteCount ≤ maxNameBytes ∧
      ((∃ target, t.get? (l ++ [n]) = some (.link target) ∧
          jump l ((Path.mk target).steps ++ steps) = .ok m) ∨
        ((∀ target, t.get? (l ++ [n]) ≠ some (.link target)) ∧
          walkWith t purpose jump (l ++ [n]) steps = .ok m)) := by
  rw [walkWith, enter_bind_eq_ok]
  refine and_congr_right fun _ => ?_
  by_cases forbidden : purpose = .write ∧ steps = [.slash]
  · simp [forbidden]
  · rw [if_neg forbidden]
    change (nameIn l n >>= _) = _ ↔ _
    rw [Outcome.bind_eq_ok]
    have allowed : purpose = .write → steps ≠ [.slash] := fun hp hs => forbidden ⟨hp, hs⟩
    simp only [nameIn_eq_ok]
    constructor
    · rintro ⟨_, ⟨short, rfl⟩, h⟩
      refine ⟨allowed, short, ?_⟩
      split at h
      · next target stands => exact .inl ⟨target, stands, h⟩
      · next plain => exact .inr ⟨plain, h⟩
    · rintro ⟨-, short, ⟨target, stands, h⟩ | ⟨plain, h⟩⟩
      · exact ⟨_, ⟨short, rfl⟩, by simpa only [stands] using h⟩
      · refine ⟨_, ⟨short, rfl⟩, ?_⟩
        split
        · next target stands => exact absurd stands (plain target)
        · exact h

/-- A walk that arrives is derived, provided that this holds of the walks along links. -/
theorem Walks.of_walkWith {jump : Location → List Step → Except FileError Location}
    (along : ∀ {l steps}, jump l steps = .ok m → ∃ k, links = k + 1 ∧ t.Walks purpose k l steps m)
    (h : walkWith t purpose jump l steps = .ok m) : t.Walks purpose links l steps m := by
  -- by the steps that are left; a link is where `jump` takes over
  induction steps generalizing l with
  | nil =>
    obtain rfl : l = m := by simpa [walkWith] using h
    exact .done
  | cons step steps ih =>
    cases step with
    | root => exact .root (ih (by simpa only [walkWith] using h))
    | here =>
      obtain ⟨inside, h⟩ := enter_bind_eq_ok.1 h
      exact .here inside (ih h)
    | slash =>
      obtain ⟨inside, h⟩ := enter_bind_eq_ok.1 h
      exact .slash inside (ih h)
    | up =>
      obtain ⟨inside, h⟩ := enter_bind_eq_ok.1 h
      exact .up inside (ih h)
    | name n =>
      obtain ⟨inside, allowed, short, ⟨target, stands, h⟩ | ⟨plain, h⟩⟩ := walkWith_name_eq_ok.1 h
      · obtain ⟨k, rfl, tail⟩ := along h
        exact .link inside allowed short stands tail
      · exact .name inside allowed short plain (ih h)

/-- **The derivations are the walks.** -/
theorem walk_eq_ok_iff :
    t.walk purpose (links + 1) l steps = .ok m ↔ t.Walks purpose links l steps m := by
  constructor
  · intro h
    -- by the links that may still be followed: the steps grow when one is
    induction links generalizing l steps with
    | zero => exact Walks.of_walkWith (fun h => by cases h) h
    | succ links ih => exact Walks.of_walkWith (fun h => ⟨links, rfl, ih h⟩) h
  · intro h
    induction h with
    | done => rfl
    | root tail ih => simpa only [walk, walkWith] using ih
    | here inside tail ih => exact enter_bind_eq_ok.2 ⟨inside, ih⟩
    | slash inside tail ih => exact enter_bind_eq_ok.2 ⟨inside, ih⟩
    | up inside tail ih => exact enter_bind_eq_ok.2 ⟨inside, ih⟩
    | name inside allowed short plain tail ih =>
      exact walkWith_name_eq_ok.2 ⟨inside, allowed, short, .inr ⟨plain, ih⟩⟩
    | link inside allowed short stands tail ih =>
      exact walkWith_name_eq_ok.2 ⟨inside, allowed, short, .inl ⟨_, stands, ih⟩⟩

/-- The steps of a path that is not too long. -/
theorem checkedSteps_eq_ok {p : Path} :
    p.checkedSteps = .ok steps ↔ p.text.byteCount ≤ maxPathBytes ∧ steps = p.steps := by
  unfold Path.checkedSteps
  split
  · next h => simp [Nat.not_le.2 h]
  · next h => simp [Nat.not_lt.1 h, eq_comm]

/-- **Where a path leads.** -/
theorem locate_eq_ok {p : Path} :
    t.locate p = .ok l ↔
      p.text.byteCount ≤ maxPathBytes ∧ t.Walks .visit maxLinks [] p.steps l := by
  rw [locate, Outcome.bind_eq_ok]
  simp only [checkedSteps_eq_ok, locateSteps, walk_eq_ok_iff]
  constructor
  · rintro ⟨_, ⟨short, rfl⟩, h⟩
    exact ⟨short, h⟩
  · rintro ⟨short, h⟩
    exact ⟨_, ⟨short, rfl⟩, h⟩

/-- **Where a file is written.** -/
theorem locateForWriting_eq_ok {p : Path} :
    t.locateForWriting p = .ok l ↔
      p.text.byteCount ≤ maxPathBytes ∧ t.Walks .write maxLinks [] p.steps l := by
  rw [locateForWriting, Outcome.bind_eq_ok]
  simp only [checkedSteps_eq_ok, walk_eq_ok_iff]
  constructor
  · rintro ⟨_, ⟨short, rfl⟩, h⟩
    exact ⟨short, h⟩
  · rintro ⟨short, h⟩
    exact ⟨_, ⟨short, rfl⟩, h⟩

/-! ## Where walks arrive -/

/-- **A location that a walk can be at**: directories stand all the way down to it, and no link
stands there. -/
structure Grounded (t : Tree) (l : Location) : Prop where
  /-- What stands above it are directories. -/
  above : ∀ p, p <+: l → p ≠ l → t.get? p = some .directory
  /-- What stands there is no link. -/
  plain : ∀ target, t.get? l ≠ some (.link target)

/-- The root is a place to start from. -/
theorem Grounded.root (t : Tree) : t.Grounded [] where
  above p hp hne := absurd (List.prefix_nil.1 hp) hne
  plain target := by simp

/-- The way up from a directory. -/
theorem Grounded.dropLast (h : t.Grounded l) : t.Grounded l.dropLast := by
  rcases List.eq_nil_or_concat l with rfl | ⟨l, n, rfl⟩
  · exact h
  · have inside : t.get? l = some .directory := h.above l (by simp) (by simp)
    -- the way up is shorter than the way that it is a part of
    rw [List.concat_eq_append, List.dropLast_concat]
    refine ⟨fun p hp hne => h.above p ?_ fun heq => ?_, fun target => by simp [inside]⟩
    · simpa using hp.trans (List.prefix_append l [n])
    · have hlen := hp.length_le
      rw [heq, List.length_concat] at hlen
      omega

/-- The way down into a directory. -/
theorem Grounded.child (h : t.Grounded l) (inside : t.get? l = some .directory) {n : Text}
    (plain : ∀ target, t.get? (l ++ [n]) ≠ some (.link target)) : t.Grounded (l ++ [n]) where
  above p hp hne := by
    rcases List.prefix_concat_iff.1 hp with rfl | hp
    · exact absurd rfl hne
    · by_cases heq : p = l
      · rw [heq, inside]
      · exact h.above p hp heq
  plain := plain

/-- **A walk arrives below directories, and not at a link.** -/
theorem Walks.grounded (h : t.Walks purpose links l steps m) (start : t.Grounded l) :
    t.Grounded m := by
  induction h with
  | done => exact start
  | root tail ih => exact ih (.root t)
  | here inside tail ih => exact ih start
  | slash inside tail ih => exact ih start
  | up inside tail ih => exact ih start.dropLast
  | name inside allowed short plain tail ih => exact ih (start.child inside plain)
  | link inside allowed short stands tail ih => exact ih start

/-- Where a path leads there is no link, and only directories stand above. -/
theorem grounded_of_locate {p : Path} (h : t.locate p = .ok l) : t.Grounded l :=
  (locate_eq_ok.1 h).2.grounded (.root t)

/-! ## Looking and writing -/

/-- What is found for writing is found for a look too. -/
theorem Walks.visit (h : t.Walks purpose links l steps m) : t.Walks .visit links l steps m := by
  induction h with
  | done => exact .done
  | root tail ih => exact .root ih
  | here inside tail ih => exact .here inside ih
  | slash inside tail ih => exact .slash inside ih
  | up inside tail ih => exact .up inside ih
  | name inside allowed short plain tail ih => exact .name inside nofun short plain ih
  | link inside allowed short stands tail ih => exact .link inside nofun short stands ih

/-- Behind a slash there is a directory. -/
theorem Walks.directory_of_slash (h : t.Walks purpose links l steps m) {way : List Step}
    (ends : steps = way ++ [.slash]) : t.get? m = some .directory := by
  induction h generalizing way with
  | done => simp at ends
  | @slash links l m rest inside tail ih =>
    cases way with
    | nil =>
      obtain rfl : rest = [] := by simpa using ends
      cases tail
      exact inside
    | cons step way => exact ih (List.cons.inj ends).2
  | @link links l m n target rest inside allowed short stands tail ih =>
    cases way with
    | nil => simp at ends
    | cons step way =>
      -- what follows the link is kept behind the steps of its target
      obtain rfl : rest = way ++ [.slash] := (List.cons.inj ends).2
      exact ih (List.append_assoc _ _ _).symm
  | root tail ih | here inside tail ih | up inside tail ih
  | name inside allowed short plain tail ih =>
    cases way with
    | nil => simp at ends
    | cons step way => exact ih (List.cons.inj ends).2

/-- **Where a look finds a file, the same file is written.** -/
theorem Walks.write_of_not_directory (h : t.Walks .visit links l steps m)
    (found : t.get? m ≠ some .directory) : t.Walks .write links l steps m := by
  induction h with
  | done => exact .done
  | root tail ih => exact .root (ih found)
  | here inside tail ih => exact .here inside (ih found)
  | slash inside tail ih => exact .slash inside (ih found)
  | up inside tail ih => exact .up inside (ih found)
  | name inside allowed short plain tail ih =>
    refine .name inside (fun _ hslash => ?_) short plain (ih found)
    -- only a slash behind the name forbids writing, and then a directory is found
    exact found (tail.directory_of_slash (show _ = [] ++ [Step.slash] from hslash))
  | @link links l m n target rest inside allowed short stands tail ih =>
    refine .link inside (fun _ hslash => ?_) short stands (ih found)
    exact found (tail.directory_of_slash (by rw [hslash]))

/-- What is found for writing is found for a look too. -/
theorem locate_of_locateForWriting {p : Path} (h : t.locateForWriting p = .ok l) :
    t.locate p = .ok l := by
  obtain ⟨short, walk⟩ := locateForWriting_eq_ok.1 h
  exact locate_eq_ok.2 ⟨short, walk.visit⟩

/-- Where a look finds a file, the same file is written. -/
theorem locateForWriting_of_locate {p : Path} (h : t.locate p = .ok l)
    (found : t.get? l ≠ some .directory) : t.locateForWriting p = .ok l := by
  obtain ⟨short, walk⟩ := locate_eq_ok.1 h
  exact locateForWriting_eq_ok.2 ⟨short, walk.write_of_not_directory found⟩

/-! ## Trees with the same ways -/

/-- **The same directories and the same links** stand in two trees. -/
structure SameWays (t t' : Tree) : Prop where
  directory : ∀ l, t.get? l = some .directory ↔ t'.get? l = some .directory
  link : ∀ l target, t.get? l = some (.link target) ↔ t'.get? l = some (.link target)

theorem SameWays.refl (t : Tree) : SameWays t t := ⟨fun _ => .rfl, fun _ _ => .rfl⟩

theorem SameWays.symm (h : SameWays t t') : SameWays t' t :=
  ⟨fun l => (h.directory l).symm, fun l target => (h.link l target).symm⟩

theorem SameWays.trans {t'' : Tree} (h : SameWays t t') (h' : SameWays t' t'') : SameWays t t'' :=
  ⟨fun l => (h.directory l).trans (h'.directory l),
    fun l target => (h.link l target).trans (h'.link l target)⟩

/-- **Trees with the same directories and the same links have the same walks.** -/
theorem Walks.congr (h : t.Walks purpose links l steps m) (same : SameWays t t') :
    t'.Walks purpose links l steps m := by
  induction h with
  | done => exact .done
  | root tail ih => exact .root ih
  | here inside tail ih => exact .here ((same.directory _).1 inside) ih
  | slash inside tail ih => exact .slash ((same.directory _).1 inside) ih
  | up inside tail ih => exact .up ((same.directory _).1 inside) ih
  | name inside allowed short plain tail ih =>
    refine .name ((same.directory _).1 inside) allowed short (fun target h => ?_) ih
    exact plain target ((same.link _ target).2 h)
  | link inside allowed short stands tail ih =>
    exact .link ((same.directory _).1 inside) allowed short ((same.link _ _).1 stands) ih

/-- A path leads to the same location in trees with the same ways. -/
theorem locate_congr (same : SameWays t t') {p : Path} :
    t.locate p = .ok l ↔ t'.locate p = .ok l := by
  rw [locate_eq_ok, locate_eq_ok]
  exact and_congr_right fun _ => ⟨fun h => h.congr same, fun h => h.congr same.symm⟩

end FileShell.Tree
