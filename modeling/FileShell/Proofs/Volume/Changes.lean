import FileShell.Proofs.Volume.Walks
import FileShell.Volume.Operation

/-! # What writing, copying and removing files changes

Each of these operations gives a tree if and only if its paths lead to places that suit it, and the
tree is then the old one with one location changed (`write_eq_ok`, `copyFile_eq_ok`,
`removeFile_eq_ok`). That location held neither a directory nor a link, so every path goes on to
lead where it led before. -/

namespace FileShell.Tree

variable {t t' : Tree} {l m : Location} {p source target : Path}

/-! ## Changed locations -/

/-- The later of two entries at one location counts. -/
theorem set_set (t : Tree) (l : Location) (e e' : Entry) : (t.set l e).set l e' = t.set l e' := by
  simp [set]

/-- What stands anywhere after an entry was put at a location other than the root. -/
theorem get?_set (h : l ≠ []) (e : Entry) (m : Location) :
    (t.set l e).get? m = if m = l then some e else t.get? m := by
  split
  · next heq => rw [heq, get?_set_self t e h]
  · next hne => rw [get?_set_ne t e hne]

/-- What stands anywhere after a location other than the root was cleared. -/
theorem get?_erase (h : l ≠ []) (m : Location) :
    (t.erase l).get? m = if m = l then none else t.get? m := by
  split
  · next heq => rw [heq, get?_erase_self t h]
  · next hne => rw [get?_erase_ne t hne]

/-- A location without a directory is not the root. -/
theorem ne_root (h : t.get? l ≠ some .directory) : l ≠ [] := by
  rintro rfl
  exact h (get?_root t)

/-- **Trees that differ at one location**, which holds neither a directory nor a link in either,
have the same ways. -/
theorem SameWays.of_eq_off (off : ∀ m, m ≠ l → t'.get? m = t.get? m)
    (before : t.get? l ≠ some .directory ∧ ∀ target, t.get? l ≠ some (.link target))
    (after : t'.get? l ≠ some .directory ∧ ∀ target, t'.get? l ≠ some (.link target)) :
    SameWays t t' := by
  constructor
  · intro m
    by_cases hm : m = l
    · subst hm
      exact iff_of_false before.1 after.1
    · rw [off m hm]
  · intro m target
    by_cases hm : m = l
    · subst hm
      exact iff_of_false (before.2 target) (after.2 target)
    · rw [off m hm]

/-- A file put in a place without a directory or a link leaves the ways as they are. -/
theorem sameWays_set (directory : t.get? l ≠ some .directory)
    (link : ∀ target, t.get? l ≠ some (.link target)) (content : ByteArray) :
    SameWays t (t.set l (.file content)) := by
  refine .of_eq_off (fun m hm => get?_set_ne t _ hm) ⟨directory, link⟩ ?_
  rw [get?_set_self t _ (ne_root directory)]
  simp

/-- A place without a directory or a link can be cleared, and the ways stay as they are. -/
theorem sameWays_erase (directory : t.get? l ≠ some .directory)
    (link : ∀ target, t.get? l ≠ some (.link target)) : SameWays t (t.erase l) := by
  refine .of_eq_off (fun m hm => get?_erase_ne t hm) ⟨directory, link⟩ ?_
  rw [get?_erase_self t (ne_root directory)]
  simp

/-! ## Contents -/

/-- **The bytes of the file that a path leads to**, if it leads to one. -/
def contents? (t : Tree) (p : Path) : Option ByteArray := (t.locate p >>= t.bytesAt).toOption

/-- There are bytes where a file stands. -/
theorem bytesAt_eq_ok {content : ByteArray} :
    t.bytesAt l = .ok content ↔ t.get? l = some (.file content) := by
  unfold bytesAt
  rcases t.get? l with _ | _ | _ | _ <;> simp

/-- A path with bytes leads to a file that holds them. -/
theorem contents?_eq_some {content : ByteArray} :
    t.contents? p = some content ↔
      ∃ l, t.locate p = .ok l ∧ t.get? l = some (.file content) := by
  rw [contents?, Outcome.toOption_eq_some, Outcome.bind_eq_ok]
  simp only [bytesAt_eq_ok]

/-- The bytes that a path leads to are those at its location. -/
theorem contents?_of_locate (h : t.locate p = .ok l) :
    t.contents? p = (t.bytesAt l).toOption := by rw [contents?, h, Outcome.ok_bind]

/-- A file is found where the bytes are. -/
theorem stat_eq_file : t.stat p = .file ↔ ∃ content, t.contents? p = some content := by
  simp only [contents?_eq_some, stat]
  rcases hl : t.locate p with e | l
  · simp
  · rcases hget : t.get? l with _ | _ | content | _ <;> simp [hget]

/-- **A text is read** from a file whose bytes are its bytes. -/
theorem readText_eq_ok {text : Text} :
    t.readText p = .ok text ↔
      ∃ content, t.contents? p = some content ∧ textOfBytes? content = some text := by
  rw [readText, ← bind_assoc, Outcome.bind_eq_ok]
  simp only [contents?, Outcome.toOption_eq_some]
  refine exists_congr fun content => and_congr_right fun _ => ?_
  cases textOfBytes? content <;> simp

/-- **A path keeps its contents** where the ways are the same and nothing has changed at its end. -/
theorem contents?_congr (same : SameWays t t')
    (keeps : ∀ l, t.locate p = .ok l → t'.get? l = t.get? l) : t'.contents? p = t.contents? p := by
  ext content
  rw [contents?_eq_some, contents?_eq_some]
  constructor
  · rintro ⟨l, found, stands⟩
    have found' := (locate_congr same).2 found
    exact ⟨l, found', by rw [← keeps l found', stands]⟩
  · rintro ⟨l, found, stands⟩
    exact ⟨l, (locate_congr same).1 found, by rw [keeps l found, stands]⟩

/-! ## Writing -/

/-- The bytes of a file after a text was written to it. -/
def written (old : ByteArray) (text : Text) : WriteMode → ByteArray
  | .truncate => text.bytes
  | .append => old ++ text.bytes

/-- A location is opened for writing unless a directory stands there; a missing file is empty. -/
theorem openedBytes_eq_ok {old : ByteArray} (grounded : t.Grounded l) :
    t.openedBytes l = .ok old ↔
      t.get? l ≠ some .directory ∧ old = ((t.bytesAt l).toOption).getD .empty := by
  unfold openedBytes bytesAt
  rcases hget : t.get? l with _ | _ | _ | target
  · simp [Except.toOption, eq_comm]
  · simp
  · simp [Except.toOption, eq_comm]
  · exact absurd hget (grounded.plain target)

/-- A text is written in the same way in both modes. -/
theorem write_eq (t : Tree) (p : Path) (text : Text) (mode : WriteMode) :
    t.write p text mode = (do
      let l ← t.locateForWriting p
      let old ← t.openedBytes l
      return t.set l (.file (written old text mode))) := by
  cases mode <;> rfl

/-- **A text is written** where the path leads, and what the path leads to is all that changes. -/
theorem write_eq_ok {text : Text} {mode : WriteMode} :
    t.write p text mode = .ok t' ↔
      ∃ l, t.locateForWriting p = .ok l ∧ t.get? l ≠ some .directory ∧
        t' = t.set l (.file (written ((t.contents? p).getD .empty) text mode)) := by
  rw [write_eq, Outcome.bind_eq_ok]
  refine exists_congr fun l => and_congr_right fun hl => ?_
  have found := locate_of_locateForWriting hl
  rw [contents?_of_locate found, Outcome.bind_eq_ok]
  simp only [openedBytes_eq_ok (grounded_of_locate found), Outcome.pure_eq, Except.ok.injEq]
  constructor
  · rintro ⟨_, ⟨free, rfl⟩, rfl⟩
    exact ⟨free, rfl⟩
  · rintro ⟨free, rfl⟩
    exact ⟨_, ⟨free, rfl⟩, rfl⟩

/-- A file put where a path leads is what the path leads to. -/
theorem locate_set (h : t.locate p = .ok l) (free : t.get? l ≠ some .directory)
    (content : ByteArray) : (t.set l (.file content)).locate p = .ok l :=
  (locate_congr (sameWays_set free (grounded_of_locate h).plain content)).1 h

/-- **What was written is what the path leads to afterwards**, and nothing else has changed. -/
theorem exists_of_write_eq_ok {text : Text} {mode : WriteMode} (h : t.write p text mode = .ok t') :
    ∃ l, t.locate p = .ok l ∧ t'.locate p = .ok l ∧ (∀ m, m ≠ l → t'.get? m = t.get? m) ∧
      t'.contents? p = some (written ((t.contents? p).getD .empty) text mode) := by
  obtain ⟨l, hl, free, rfl⟩ := write_eq_ok.1 h
  have found := locate_of_locateForWriting hl
  have found' := locate_set found free (written ((t.contents? p).getD .empty) text mode)
  exact ⟨l, found, found', fun m hm => get?_set_ne t _ hm,
    contents?_eq_some.2 ⟨l, found', get?_set_self t _ (ne_root free)⟩⟩

/-! ## Copying -/

/-- **A file is copied** from where the source leads to where the target is written; copied onto
itself it is empty. -/
theorem copyFile_eq_ok :
    t.copyFile source target = .ok t' ↔
      ∃ origin goal content, t.locate source = .ok origin ∧ t.get? origin = some (.file content) ∧
        t.locateForWriting target = .ok goal ∧ t.get? goal ≠ some .directory ∧
        t' = t.set goal (.file (if goal = origin then .empty else content)) := by
  have hread {origin goal : Location} {content : ByteArray}
      (stands : t.get? origin = some (.file content)) (free : t.get? goal ≠ some .directory) :
      (t.set goal (.file .empty)).bytesAt origin =
        .ok (if goal = origin then .empty else content) := by
    rw [bytesAt_eq_ok, get?_set (ne_root free)]
    by_cases heq : origin = goal
    · simp [heq]
    · simp [heq, Ne.symm heq, stands]
  simp only [copyFile, Outcome.bind_eq_ok, bytesAt_eq_ok, Outcome.pure_eq, Except.ok.injEq]
  constructor
  · rintro ⟨origin, found, content, stands, goal, hgoal, old, opened, copied, read, rfl⟩
    -- the source is read after the target was opened, which empties it
    have free := ((openedBytes_eq_ok
      (grounded_of_locate (locate_of_locateForWriting hgoal))).1 opened).1
    obtain rfl := Except.ok.inj ((bytesAt_eq_ok.2 read).symm.trans (hread stands free))
    exact ⟨origin, goal, content, found, stands, hgoal, free, set_set t goal _ _⟩
  · rintro ⟨origin, goal, content, found, stands, hgoal, free, rfl⟩
    exact ⟨origin, found, content, stands, goal, hgoal, _,
      (openedBytes_eq_ok (grounded_of_locate (locate_of_locateForWriting hgoal))).2 ⟨free, rfl⟩, _,
      bytesAt_eq_ok.1 (hread stands free), set_set t goal _ _⟩

/-- A file copied onto itself is emptied, by whichever two paths. -/
theorem copyFile_onto_itself {content : ByteArray} (here : t.locate source = .ok l)
    (there : t.locate target = .ok l) (stands : t.get? l = some (.file content)) :
    t.copyFile source target = .ok (t.set l (.file .empty)) := by
  have free : t.get? l ≠ some .directory := by simp [stands]
  exact copyFile_eq_ok.2
    ⟨l, l, content, here, stands, locateForWriting_of_locate there free, free, by rw [if_pos rfl]⟩

/-- **What was copied is what the target leads to afterwards**, and nothing else has changed. -/
theorem exists_of_copyFile_eq_ok (h : t.copyFile source target = .ok t') :
    ∃ origin goal content, t.locate source = .ok origin ∧ t.get? origin = some (.file content) ∧
      t.locate target = .ok goal ∧ SameWays t t' ∧
      t'.contents? target = some (if goal = origin then .empty else content) ∧
      ∀ p, t.locate p ≠ .ok goal → t'.contents? p = t.contents? p := by
  obtain ⟨origin, goal, content, found, stands, hgoal, free, rfl⟩ := copyFile_eq_ok.1 h
  have reached := locate_of_locateForWriting hgoal
  have same := sameWays_set free (grounded_of_locate reached).plain
    (if goal = origin then .empty else content)
  refine ⟨origin, goal, content, found, stands, reached, same, ?_, fun p hp => ?_⟩
  · exact contents?_eq_some.2
      ⟨goal, (locate_congr same).1 reached, get?_set_self t _ (ne_root free)⟩
  · refine contents?_congr same fun l hl => get?_set_ne t _ ?_
    rintro rfl
    exact hp hl

/-! ## Removing -/

/-- **A file or a link is removed** from the place that the path names. -/
theorem removeFile_eq_ok :
    t.removeFile p = .ok t' ↔
      ∃ l, t.place p = .ok (l, .name) ∧ t.get? l ≠ none ∧ t.get? l ≠ some .directory ∧
        t' = t.erase l := by
  rw [removeFile, Outcome.bind_eq_ok]
  constructor
  · rintro ⟨⟨l, ending⟩, hplace, h⟩
    -- no other ending names something that can be removed
    cases ending with
    | name =>
      rcases hget : t.get? l with _ | _ | _ | _ <;> simp [hget] at h <;>
        exact ⟨l, hplace, by simp [hget], by simp [hget], h.symm⟩
    | slash => rcases hget : t.get? l with _ | _ | _ | _ <;> simp [hget] at h
    | here | up | root => simp at h
  · rintro ⟨l, hplace, stands, free, rfl⟩
    refine ⟨(l, .name), hplace, ?_⟩
    rcases hget : t.get? l with _ | _ | _ | _
    · exact absurd hget stands
    · exact absurd hget free
    · simp [hget]
    · simp [hget]

end FileShell.Tree
