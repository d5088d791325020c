import FileShell.Proofs.Path.Expansion
import FileShell.Proofs.Shell.Turns

/-! # Words seen from another directory

A word that starts neither at the root nor at home is seen from the working directory
(`IsRelative`). Whether one first goes where another word leads and then follows this one, or puts
it behind the other word with a slash in between, the way is the same: the pieces of both are
carried out one after the other, and what is cut off at the root is cut off either way.

* **`resolve_behind`** — this is so for the path that a word names,
* **`Session.expand_moved`** — for what a wildcard matches,
* **`resolve_after_cd`** — and so for a session whose directory was changed in between. -/

namespace FileShell

/-- **A word that is seen from the working directory.** -/
structure IsRelative (word : Text) : Prop where
  /-- It does not start at the root. -/
  unrooted : word.head? ≠ some '/'
  /-- It is not the home directory. -/
  homeless : word ≠ ['~']
  /-- Nor does it start there. -/
  apart : ∀ rest, word ≠ '~' :: '/' :: rest

variable {cwd home : Path} {a b t part : Text}

/-! ## Tildes -/

/-- Such a word has no tilde to be replaced. -/
theorem IsRelative.expandTilde (h : IsRelative b) (home : Path) :
    FileShell.expandTilde home b = ⟨b⟩ :=
  expandTilde_of_plain home h.homeless h.apart

/-- Its path is a relative one. -/
theorem IsRelative.isAbsolute (h : IsRelative b) : (Path.mk b).isAbsolute = false :=
  decide_eq_false h.unrooted

/-- What is put behind a word with a slash in between leaves the tilde as it is. -/
theorem expandTilde_behind (home : Path) (nonempty : a ≠ []) (b : Text) :
    expandTilde home (a ++ '/' :: b) = ⟨(expandTilde home a).text ++ '/' :: b⟩ := by
  rw [expandTilde.eq_def home a]
  split
  · rfl
  · next rest => simp [expandTilde]
  · next halone hleading =>
    apply expandTilde_of_plain
    · intro heq
      have hlength : (a ++ '/' :: b).length = 1 := by rw [heq, List.length_singleton]
      have hpos : 0 < a.length := List.length_pos_iff.2 nonempty
      rw [List.length_append, List.length_cons] at hlength
      omega
    · intro rest heq
      -- the slash that would follow a tilde is the one in between, or the word has it
      rcases a with _ | ⟨c, _ | ⟨d, word⟩⟩
      · exact nonempty rfl
      · obtain ⟨rfl, -⟩ : c = '~' ∧ b = rest := by simpa using heq
        exact halone rfl
      · obtain ⟨rfl, rfl, -⟩ : c = '~' ∧ d = '/' ∧ word ++ '/' :: b = rest := by simpa using heq
        exact hleading word rfl

/-- A word that is not empty has a path that is not empty. -/
theorem text_expandTilde_ne_nil (own : home.text ≠ []) (nonempty : a ≠ []) :
    (expandTilde home a).text ≠ [] := by
  rw [expandTilde.eq_def]
  split
  · exact own
  · simp
  · exact nonempty

/-! ## Paths -/

/-- **The names that two texts with a slash in between come down to** are those that the second one
makes of the names of the first. -/
theorem Path.names_join_behind (absolute : cwd.isAbsolute = true) (nonempty : t ≠ []) (b : Text) :
    (cwd.join ⟨t ++ '/' :: b⟩).names =
      (Path.mk b).parts.foldl Part.onto (cwd.join ⟨t⟩).names := by
  have hparts : ∀ names : List Text, (Path.mk (t ++ '/' :: b)).parts.foldl Part.onto names =
      (Path.mk b).parts.foldl Part.onto ((Path.mk t).parts.foldl Part.onto names) := by
    intro names
    rw [foldl_parts, foldl_parts, foldl_parts, pieces_append_cons, List.filterMap_append,
      List.foldl_append]
  have hstart : (Path.mk (t ++ '/' :: b)).isAbsolute = (Path.mk t).isAbsolute := by
    rw [isAbsolute, isAbsolute, List.head?_append_of_ne_nil _ nonempty]
  cases hroot : (Path.mk t).isAbsolute with
  | true =>
    rw [join, if_pos (hstart.trans hroot), join, if_pos hroot, names, hparts]
    rfl
  | false => rw [names_join absolute (hstart.trans hroot), names_join absolute hroot, hparts]

/-- **A word behind another one names what it names from where the other one leads.** -/
theorem resolve_behind (absolute : cwd.isAbsolute = true) (own : home.text ≠ [])
    (nonempty : a ≠ []) (relative : IsRelative b) :
    resolve (resolve cwd home a) home b = resolve cwd home (a ++ '/' :: b) := by
  have hthere : (resolve cwd home a).isAbsolute = true := (isNormal_resolve absolute a).isAbsolute
  apply (isNormal_resolve hthere b).ext (isNormal_resolve absolute _)
  have hfrom : (resolve cwd home a).names = (cwd.join (expandTilde home a)).names :=
    Path.names_normalised _
  rw [resolve, Path.names_normalised, relative.expandTilde,
    Path.names_join hthere relative.isAbsolute, hfrom, resolve, Path.names_normalised,
    expandTilde_behind home nonempty b,
    Path.names_join_behind absolute (text_expandTilde_ne_nil own nonempty) b]

/-! ## Wildcards -/

/-- The part of such a word up to its last slash is such a word. -/
theorem IsRelative.of_append (h : IsRelative (part ++ t))
    (slash : part = [] ∨ part.getLast? = some '/') : IsRelative part := by
  rcases slash with rfl | hlast
  · exact ⟨nofun, nofun, fun rest => nofun⟩
  · have hne : part ≠ [] := by
      rintro rfl
      cases hlast
    refine ⟨?_, ?_, ?_⟩
    · intro hhead
      exact h.unrooted (by rw [List.head?_append_of_ne_nil _ hne, hhead])
    · rintro rfl
      exact absurd hlast (by decide)
    · rintro rest rfl
      exact h.apart (rest ++ t) rfl

namespace Session

variable {session : Session} {v : Volume} {scope : MatchScope} {paths : List Path}

/-- **The session where a word leads.** -/
def moved (session : Session) (a : Text) : Session := { session with cwd := session.resolve a }

/-- **A relative word names from there** what it names behind the other word. -/
theorem resolve_moved (absolute : session.cwd.isAbsolute = true) (own : session.home.text ≠ [])
    (nonempty : a ≠ []) (relative : IsRelative b) :
    (session.moved a).resolve b = session.resolve (a ++ '/' :: b) :=
  resolve_behind absolute own nonempty relative

/-- The directory of a relative wildcard is the same one. -/
theorem directoryNamed_moved (absolute : session.cwd.isAbsolute = true)
    (own : session.home.text ≠ []) (nonempty : a ≠ []) (relative : IsRelative part) :
    (session.moved a).directoryNamed part = session.directoryNamed (a ++ '/' :: part) := by
  have hmoved : session.directoryNamed (a ++ '/' :: part) = (session.moved a).resolve part := by
    rw [directoryNamed, if_neg (by simp), resolve_moved absolute own nonempty relative]
  rw [hmoved, directoryNamed]
  split
  · next hnone =>
    -- a wildcard without a slash is about the working directory, as a dot and nothing at all are
    have hnormal : (session.moved a).cwd.IsNormal := isNormal_resolve absolute a
    rw [hnone, resolve, resolve_dot hnormal, resolve, resolve_nil hnormal]
  · rfl

/-- **A relative wildcard finds from there** what it finds behind the other word. -/
theorem expand_moved (absolute : session.cwd.isAbsolute = true) (own : session.home.text ≠ [])
    (nonempty : a ≠ []) (relative : IsRelative b) :
    (session.moved a).expand v scope b = .ok paths ↔
      session.expand v scope (a ++ '/' :: b) = .ok paths := by
  generalize hcut : splitAtLastSlash b = parts
  obtain ⟨part, pattern⟩ := parts
  obtain ⟨rfl, hslash, hlast⟩ := splitAtLastSlash_eq_iff.1 hcut
  have hbehind : splitAtLastSlash (a ++ '/' :: (part ++ pattern)) = (a ++ '/' :: part, pattern) := by
    refine splitAtLastSlash_eq_iff.2 ⟨by simp, .inr ?_, hlast⟩
    rcases hslash with rfl | hslash
    · exact List.getLast?_concat
    · rw [List.getLast?_append_of_ne_nil _ (List.cons_ne_nil _ _), List.getLast?_cons, hslash]
      rfl
  rw [expand_eq_ok_iff_chosen hcut, expand_eq_ok_iff_chosen hbehind,
    directoryNamed_moved absolute own nonempty (relative.of_append hslash)]

end Session

/-! ## The command -/

/-- **After a change of directory words mean what they meant behind the name of the directory.** A
word leads to an existing directory, and the command that changes the directory is called with it.
It goes through and leaves the volume as it is, and the session then stands in that directory. A
word that starts neither at the root nor at home names from there what it named before, when it was
put behind the other word with a slash in between; and as a wildcard it finds the same paths, in the
same order, or neither finds any. Both directories of a session are absolute, and of the home no
more is needed here than that its path has a text. -/
theorem resolve_after_cd {s : State} {a : Text} (absolute : s.session.cwd.isAbsolute = true)
    (own : s.session.home.text ≠ []) (nonempty : a ≠ [])
    (there : s.volume.stat (s.session.resolve a) = .directory) (env : Environment) {call : Call}
    (target : call.paths.head? = some (s.session.resolve a)) :
    ∃ s', Command.cd.run env call s = .ok [] s' ∧ s'.volume = s.volume ∧
      s.session.changeDirectory s.volume (s.session.resolve a) = .ok s'.session ∧
      ∀ b, IsRelative b →
        s'.session.resolve b = s.session.resolve (a ++ '/' :: b) ∧
        ∀ scope paths, s'.session.expand s'.volume scope b = .ok paths ↔
          s.session.expand s.volume scope (a ++ '/' :: b) = .ok paths := by
  have hnormal : (s.session.resolve a).IsNormal := isNormal_resolve absolute a
  have hjoin : (s.session.cwd.join (s.session.resolve a)).normalised = s.session.resolve a :=
    hnormal.normalised_join
  refine ⟨{ s with session := s.session.moved a }, ?_, rfl, ?_, fun b relative => ⟨?_, ?_⟩⟩
  · exact changeDirectory_of_directory hnormal (by rw [target, Option.getD_some]) there
  · rw [Session.changeDirectory_eq_ok (hjoin.symm ▸ there), hjoin]
    rfl
  · exact Session.resolve_moved absolute own nonempty relative
  · intro scope paths
    exact Session.expand_moved absolute own nonempty relative

/-- Up again beyond the root, and back into the directory for a wildcard. -/
theorem resolve_after_cd_up :
    let s : State := .atRoot ⟨[([['w']], .directory), ([['w'], "a.t".toList], .file .empty)]⟩
    let call : Call := ⟨[], [.path (s.session.resolve "./w".toList)], none⟩
    s.session.cwd.isAbsolute = true ∧ s.session.home.text ≠ [] ∧
      s.volume.stat (s.session.resolve "./w".toList) = .directory ∧
      ∃ s', Command.cd.run .plain call s = .ok [] s' ∧
        s'.session.resolve "../../x".toList = ⟨"/x".toList⟩ ∧
        s'.session.expand s'.volume .filesOnly "../w/*.t".toList =
          .ok [⟨"/w/a.t".toList⟩] := by
  intro s call
  have absolute : s.session.cwd.isAbsolute = true := by decide
  have own : s.session.home.text ≠ [] := by decide
  have there : s.volume.stat (s.session.resolve "./w".toList) = .directory := by decide +kernel
  have up : IsRelative "../../x".toList := ⟨by decide, by decide, by simp⟩
  have back : IsRelative "../w/*.t".toList := ⟨by decide, by decide, by simp⟩
  have target : call.paths.head? = some (s.session.resolve "./w".toList) := rfl
  obtain ⟨s', hrun, -, -, hwords⟩ := resolve_after_cd absolute own (by decide) there .plain target
  refine ⟨absolute, own, there, s', hrun, ?_, ?_⟩
  · rw [(hwords _ up).1]
    decide +kernel
  · rw [(hwords _ back).2]
    decide +kernel

end FileShell
