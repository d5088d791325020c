import FileShell.Proofs.Volume.Changes
import FileShell.Volume.Basic

/-! # What changes on a volume

An operation on a volume is refused, or it fails, and then nothing has changed; or it is carried out
on the tree (`changed_cases`). A record that is made in between changes the file of the log alone
(`get?_logged`), so that it may be left out of account wherever that file plays no part
(`LogApart`). -/

namespace FileShell

namespace Tree

/-- Bytes are added to a file, or nothing happens. -/
theorem extend_cases (t : Tree) (l : Location) (bytes : ByteArray) :
    (∃ old, t.get? l = some (.file old) ∧ t.extend l bytes = t.set l (.file (old ++ bytes))) ∨
      t.extend l bytes = t := by
  unfold extend
  split
  · next old hget => exact .inl ⟨old, hget, rfl⟩
  · exact .inr rfl

/-- Adding bytes leaves the ways as they are. -/
theorem sameWays_extend (t : Tree) (l : Location) (bytes : ByteArray) :
    SameWays t (t.extend l bytes) := by
  rcases t.extend_cases l bytes with ⟨old, hget, heq⟩ | heq
  · rw [heq]
    exact sameWays_set (by simp [hget]) (by simp [hget]) _
  · rw [heq]
    exact .refl t

/-- Bytes are added at one location. -/
theorem get?_extend_ne (t : Tree) {l m : Location} (bytes : ByteArray) (h : m ≠ l) :
    (t.extend l bytes).get? m = t.get? m := by
  rcases t.extend_cases l bytes with ⟨old, -, heq⟩ | heq
  · rw [heq, get?_set_ne t _ h]
  · rw [heq]

/-- A directory is found where one stands. -/
theorem stat_eq_directory {t : Tree} {p : Path} :
    t.stat p = .directory ↔ ∃ l, t.locate p = .ok l ∧ t.get? l = some .directory := by
  rw [stat]
  rcases t.locate p with e | l
  · simp
  · rcases hget : t.get? l with _ | _ | _ | _ <;> simp [hget]

end Tree

namespace Volume

/-! ## Operations -/

/-- **A change is carried out or not.** It is if it is neither refused nor fails by itself;
otherwise the volume stays as it is. -/
theorem changed_cases (v : Volume) (o : Operation) (p : Path) (outcome : Except FileError Tree) :
    (∃ tree, v.interference.refusal o p = none ∧ outcome = .ok tree ∧
        v.afterChange (v.unlessRefused o p outcome) = (.ok (), v.withTree tree)) ∨
      (v.interference.refusal o p ≠ none ∨ ∃ e, outcome = .error e) ∧
        ∃ e, v.afterChange (v.unlessRefused o p outcome) = (.error e, v) := by
  unfold unlessRefused
  rcases hrefusal : v.interference.refusal o p with _ | reason
  · rcases outcome with e | tree
    · exact .inr ⟨.inr ⟨e, rfl⟩, e, rfl⟩
    · exact .inl ⟨tree, rfl, rfl, rfl⟩
  · exact .inr ⟨.inl nofun, .refused reason, rfl⟩

/-- A file stands where a look finds one, and where one stands it is found unless the look is
refused. -/
theorem stat_eq_file {v : Volume} {p : Path} :
    v.stat p = .file ↔
      v.interference.refusal .stat p = none ∧ ∃ content, v.tree.contents? p = some content := by
  unfold stat
  split
  · next hrefusal => simp [hrefusal]
  · next hrefusal => simp [hrefusal, Tree.stat_eq_file]

/-- A directory is found where one stands, unless the look is refused. -/
theorem stat_eq_directory {v : Volume} {p : Path} :
    v.stat p = .directory ↔ v.interference.refusal .stat p = none ∧
      ∃ l, v.tree.locate p = .ok l ∧ v.tree.get? l = some .directory := by
  unfold stat
  split
  · next hrefusal => simp [hrefusal]
  · next hrefusal => simp [hrefusal, Tree.stat_eq_directory]

/-- Where a directory is found there is one. -/
theorem exists_of_stat_eq_directory {v : Volume} {p : Path} (h : v.stat p = .directory) :
    ∃ l, v.tree.locate p = .ok l ∧ v.tree.get? l = some .directory := (stat_eq_directory.1 h).2

/-- The same directories are found where the ways are the same and the same looks are refused. -/
theorem stat_eq_directory_congr {v v' : Volume} {p : Path} (same : Tree.SameWays v.tree v'.tree)
    (interference : v'.interference = v.interference) :
    v'.stat p = .directory ↔ v.stat p = .directory := by
  rw [stat_eq_directory, stat_eq_directory, interference]
  exact and_congr_right fun _ =>
    exists_congr fun l => and_congr (Tree.locate_congr same).symm (same.directory l).symm

/-- Where a look is refused nothing is found. -/
theorem stat_of_refusal {v : Volume} {p : Path} (h : v.interference.refusal .stat p ≠ none) :
    v.stat p = .missing := by
  unfold stat
  split
  · rfl
  · next hrefusal => exact absurd hrefusal h

/-! ## Records -/

/-- **The log is kept somewhere else**, if at all. -/
def LogApart (v : Volume) (l : Location) : Prop := ∀ log, v.log = some log → log.location ≠ l

variable {v : Volume} {l : Location}

/-- A volume without a log keeps it nowhere. -/
theorem logApart_of_log_eq_none (h : v.log = none) (l : Location) : v.LogApart l := by
  rw [LogApart, h]
  nofun

/-- A change may close the log, but it does not move it. -/
theorem LogApart.withTree (h : v.LogApart l) (tree : Tree) : (v.withTree tree).LogApart l :=
  fun log hlog => h log (Option.eq_some_of_filter_eq_some hlog)

theorem interference_logged (v : Volume) (r : Record) :
    (v.logged r).interference = v.interference := by
  unfold logged
  split
  · rfl
  · split <;> rfl

theorem log_logged (v : Volume) (r : Record) : (v.logged r).log = v.log := by
  unfold logged
  split
  · rfl
  · split <;> rfl

/-- A record does not move the log. -/
theorem LogApart.logged (h : v.LogApart l) (r : Record) : (v.logged r).LogApart l := by
  rw [LogApart, log_logged]
  exact h

/-- A record leaves the ways as they are. -/
theorem sameWays_logged (v : Volume) (r : Record) : Tree.SameWays v.tree (v.logged r).tree := by
  unfold Volume.logged
  split
  · exact .refl v.tree
  · split
    · exact v.tree.sameWays_extend _ _
    · exact .refl v.tree

/-- **A record changes the file of the log alone.** -/
theorem get?_logged (h : v.LogApart l) (r : Record) : (v.logged r).tree.get? l = v.tree.get? l := by
  unfold Volume.logged
  split
  · rfl
  · next log hlog =>
    split
    · exact v.tree.get?_extend_ne _ (h log hlog).symm
    · rfl

/-- The same directories are found after a record was made. -/
theorem stat_logged_eq_directory (v : Volume) (r : Record) (p : Path) :
    (v.logged r).stat p = .directory ↔ v.stat p = .directory :=
  stat_eq_directory_congr (v.sameWays_logged r) (v.interference_logged r)

/-- **A path does not lead to the file of the log.** -/
def LogElsewhere (v : Volume) (p : Path) : Prop := ∀ l, v.tree.locate p = .ok l → v.LogApart l

/-- A record leaves a path its contents unless it leads to the file of the log. -/
theorem contents?_logged {p : Path} (h : v.LogElsewhere p) (r : Record) :
    (v.logged r).tree.contents? p = v.tree.contents? p :=
  Tree.contents?_congr (v.sameWays_logged r) fun l hl => get?_logged (h l hl) r

/-- A record does not bring a path to the log. -/
theorem LogElsewhere.logged {p : Path} (h : v.LogElsewhere p) (r : Record) :
    (v.logged r).LogElsewhere p :=
  fun l hl => (h l ((Tree.locate_congr (v.sameWays_logged r)).2 hl)).logged r

/-- A change that leaves the ways as they are does not bring a path to the log either. -/
theorem LogElsewhere.withTree {p : Path} (h : v.LogElsewhere p) {tree : Tree}
    (same : Tree.SameWays v.tree tree) : (v.withTree tree).LogElsewhere p :=
  fun l hl => (h l ((Tree.locate_congr same).2 hl)).withTree tree

end Volume

end FileShell
