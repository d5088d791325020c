import FileShell.Path.Basic
import FileShell.Path.Steps
import FileShell.Proofs.Text.Lines

/-! # Normal paths

A path is normal if it is the absolute path through its own names. Such a path is known by its names
alone: they are its parts and its steps, and no two normal paths have the same ones.

* **`Path.isNormal_ofNames`** — the absolute path through names of entries is normal.
* **`isNormal_resolve`** — so is every path that a word names in an absolute working directory.
* **`Path.IsNormal.child`** — and every entry of a directory with a normal path.
* **`Path.names_join`** — a relative path is followed from where another one leads.
* **`Path.normalised_normalised`** — once its dots are carried out, a path stays as it is. -/

namespace FileShell

/-- **A text that can be the name of an entry.** -/
def IsName (n : Text) : Prop := n ≠ [] ∧ n ≠ ['.'] ∧ n ≠ ['.', '.'] ∧ '/' ∉ n

instance : DecidablePred IsName := fun n =>
  inferInstanceAs (Decidable (n ≠ [] ∧ n ≠ ['.'] ∧ n ≠ ['.', '.'] ∧ '/' ∉ n))

/-! ## Pieces -/

/-- A piece that stands for a name is one. -/
theorem isName_of_ofPiece? {t piece n : Text} (hmem : piece ∈ t.pieces '/')
    (h : Part.ofPiece? piece = some (.name n)) : IsName n := by
  unfold Part.ofPiece? at h
  split at h
  · cases h
  · next hskip =>
    split at h
    · cases h
    · next hup =>
      obtain rfl : piece = n := by simpa using h
      exact ⟨fun h => hskip (.inl h), fun h => hskip (.inr h), hup, not_mem_of_mem_pieces hmem⟩

/-- A name stands for a part and for a step. -/
theorem ofPiece?_of_isName {n : Text} (h : IsName n) :
    Part.ofPiece? n = some (.name n) ∧ Step.ofPiece? n = some (.name n) := by
  simp [Part.ofPiece?, Step.ofPiece?, h.1, h.2.1, h.2.2.1]

/-! ## Names -/

/-- What a part adds to the names is a name of its own. -/
theorem mem_onto {names : List Text} {part : Part} {n : Text} (h : n ∈ Part.onto names part) :
    n ∈ names ∨ part = .name n := by
  cases part with
  | root | here => exact .inl h
  | up => exact .inl (List.dropLast_subset names h)
  | name m => simpa [Part.onto, eq_comm] using h

/-- The names that parts come down to are names among the parts, or were there before. -/
theorem mem_foldl_onto {parts : List Part} {names : List Text} {n : Text}
    (h : n ∈ parts.foldl Part.onto names) : n ∈ names ∨ .name n ∈ parts := by
  induction parts generalizing names with
  | nil => exact .inl h
  | cons part parts ih =>
    rcases ih h with h | h
    · exact (mem_onto h).imp_right fun heq => by simp [heq]
    · exact .inr (List.mem_cons_of_mem _ h)

/-- Names one after the other are put on top of those before. -/
theorem foldl_onto_map_name (names ns : List Text) :
    (ns.map Part.name).foldl Part.onto names = names ++ ns := by
  induction ns generalizing names with
  | nil => simp
  | cons n ns ih => simp [Part.onto, ih]

namespace Path

/-- What a path does to names is what its pieces do: neither the root nor a dot changes any. -/
theorem foldl_parts (p : Path) (names : List Text) : p.parts.foldl Part.onto names =
    ((p.text.pieces '/').filterMap Part.ofPiece?).foldl Part.onto names := by
  rw [parts]
  split
  · rw [List.foldl_cons, Part.onto]
  · split
    · rw [List.foldl_cons, Part.onto]
    · rfl

/-- Parts that are names are read off the pieces. -/
theorem isName_of_mem_parts {p : Path} {n : Text} (h : .name n ∈ p.parts) : IsName n := by
  have hbody : Part.name n ∈ (p.text.pieces '/').filterMap Part.ofPiece? := by
    unfold parts at h
    simp only at h
    split at h
    · simpa using h
    · split at h
      · simpa using h
      · exact h
  obtain ⟨piece, hmem, hpiece⟩ := List.mem_filterMap.1 hbody
  exact isName_of_ofPiece? hmem hpiece

/-- **What a path comes down to are names of entries.** -/
theorem isName_of_mem_names {p : Path} {n : Text} (h : n ∈ p.names) : IsName n := by
  rcases mem_foldl_onto h with h | h
  · cases h
  · exact isName_of_mem_parts h

/-! ## Normal paths -/

/-- **A path that is the absolute path through its names.** -/
def IsNormal (p : Path) : Prop := ofNames p.names = p

variable {p q directory : Path} {ns : List Text} {n : Text}

/-- No two normal paths have the same names. -/
theorem IsNormal.ext (hp : p.IsNormal) (hq : q.IsNormal) (h : p.names = q.names) : p = q := by
  rw [← hp, ← hq, h]

/-- The pieces of names that are joined. -/
theorem pieces_joined (h : ∀ n ∈ ns, IsName n) :
    (Text.joined ['/'] ns).pieces '/' = if ns = [] then [[]] else ns := by
  split
  · next hns => simp [hns, Text.pieces]
  · next hns => exact List.splitOn_intercalate '/' (fun n hn => (h n hn).2.2.2) hns

/-- The pieces of the absolute path through names. -/
theorem pieces_ofNames (h : ∀ n ∈ ns, IsName n) :
    (ofNames ns).text.pieces '/' = [] :: if ns = [] then [[]] else ns := by
  rw [← pieces_joined h, ofNames, Text.pieces, List.splitOnP_cons_eq_if_modifyHead,
    if_pos (by simp), Text.pieces]

/-- What names are read as, piece by piece. -/
theorem filterMap_of_isName {α : Type} {f : Text → Option α} {g : Text → α}
    (hf : ∀ n, IsName n → f n = some (g n)) (h : ∀ n ∈ ns, IsName n) :
    ns.filterMap f = ns.map g := by
  induction ns with
  | nil => rfl
  | cons n ns ih =>
    rw [List.filterMap_cons_some (hf n (h n (by simp))), List.map_cons,
      ih fun m hm => h m (by simp [hm])]

/-- **The parts of the absolute path through names** are the root and the names. -/
theorem parts_ofNames (h : ∀ n ∈ ns, IsName n) : (ofNames ns).parts = .root :: ns.map .name := by
  have hbody : ((ofNames ns).text.pieces '/').filterMap Part.ofPiece? = ns.map .name := by
    rw [pieces_ofNames h, ← filterMap_of_isName (fun n hn => (ofPiece?_of_isName hn).1) h]
    split
    · next hns => simp [hns, Part.ofPiece?]
    · simp [Part.ofPiece?]
  rw [parts, hbody]
  rfl

/-- The absolute path through names comes down to them. -/
theorem names_ofNames (h : ∀ n ∈ ns, IsName n) : (ofNames ns).names = ns := by
  rw [names, parts_ofNames h, List.foldl_cons, Part.onto, foldl_onto_map_name, List.nil_append]

/-- **The absolute path through names of entries is normal.** -/
theorem isNormal_ofNames (h : ∀ n ∈ ns, IsName n) : (ofNames ns).IsNormal := by
  rw [IsNormal, names_ofNames h]

/-- The parts of a normal path are the root and its names. -/
theorem IsNormal.parts (h : p.IsNormal) : p.parts = .root :: p.names.map .name := by
  have hparts : (ofNames p.names).parts = .root :: p.names.map .name :=
    parts_ofNames fun n hn => isName_of_mem_names hn
  rwa [show ofNames p.names = p from h] at hparts

/-- A normal path is absolute. -/
theorem IsNormal.isAbsolute (h : p.IsNormal) : p.isAbsolute = true := by
  rw [← show ofNames p.names = p from h]
  rfl

/-- Nothing is left to carry out in a normal path. -/
theorem IsNormal.normalised (h : p.IsNormal) : p.normalised = p := by
  rw [Path.normalised, if_pos h.isAbsolute]
  exact h

/-- **No dots stand between the slashes of a normal path.** -/
theorem IsNormal.pieces_ne (h : p.IsNormal) :
    ∀ piece ∈ p.text.pieces '/', piece ≠ ['.'] ∧ piece ≠ ['.', '.'] := by
  have hnames : ∀ n ∈ p.names, IsName n := fun n hn => isName_of_mem_names hn
  have hpieces := pieces_ofNames hnames
  rw [show ofNames p.names = p from h] at hpieces
  rw [hpieces]
  intro piece hmem
  rcases List.mem_cons.1 hmem with rfl | hmem
  · exact ⟨nofun, nofun⟩
  · split at hmem
    · obtain rfl : piece = [] := List.mem_singleton.1 hmem
      exact ⟨nofun, nofun⟩
    · exact ⟨(hnames piece hmem).2.1, (hnames piece hmem).2.2.1⟩

/-- The name at the end of a normal path. -/
theorem IsNormal.fileName? (h : p.IsNormal) : p.fileName? = p.names.getLast? := by
  rw [Path.fileName?, h.parts]
  rcases List.eq_nil_or_concat p.names with hns | ⟨ns, n, hns⟩
  · simp [hns]
  · simp [hns, List.getLast?_cons]

/-- No slash stands at the end of names that are joined. -/
theorem getLast?_joined_ne (hns : ns ≠ []) (h : ∀ n ∈ ns, IsName n) :
    (Text.joined ['/'] ns).getLast? ≠ some '/' ∧ Text.joined ['/'] ns ≠ [] := by
  induction ns with
  | nil => exact absurd rfl hns
  | cons n ns ih =>
    obtain ⟨hne, -, -, hslash⟩ := h n (by simp)
    cases ns with
    | nil =>
      rw [Text.joined_singleton]
      exact ⟨fun hlast => hslash (List.mem_of_getLast? hlast), hne⟩
    | cons m ns =>
      obtain ⟨hlast, hne'⟩ := ih (by simp) fun k hk => h k (List.mem_cons_of_mem _ hk)
      rw [Text.joined_cons_cons, List.getLast?_append_of_ne_nil _ hne']
      exact ⟨hlast, by simp⟩

/-- The steps of the absolute path through names lead from the root along them. -/
theorem steps_ofNames (h : ∀ n ∈ ns, IsName n) : (ofNames ns).steps = .root :: ns.map .name := by
  have hway : ((ofNames ns).text.pieces '/').filterMap Step.ofPiece? = ns.map .name := by
    rw [pieces_ofNames h, ← filterMap_of_isName (fun n hn => (ofPiece?_of_isName hn).2) h]
    split
    · next hns => simp [hns, Step.ofPiece?]
    · simp [Step.ofPiece?]
  have hslash : (ofNames ns).lastSlash (ns.map .name) = [] := by
    unfold lastSlash
    split
    · next m hlast =>
      have hns : ns ≠ [] := by
        rintro rfl
        cases hlast
      obtain ⟨hne, hnonempty⟩ := getLast?_joined_ne hns h
      rw [if_neg]
      rwa [ofNames, List.getLast?_cons_of_ne_nil hnonempty]
    · rfl
  rw [Path.steps, hway, hslash, List.append_nil]
  rfl

/-- **The steps of a normal path** lead from the root along its names. -/
theorem IsNormal.steps (h : p.IsNormal) : p.steps = .root :: p.names.map .name := by
  have hsteps : (ofNames p.names).steps = .root :: p.names.map .name :=
    steps_ofNames fun n hn => isName_of_mem_names hn
  rwa [show ofNames p.names = p from h] at hsteps

/-! ## Where normal paths come from -/

/-- An absolute path with its dots carried out is normal. -/
theorem isNormal_normalised (h : p.isAbsolute = true) : p.normalised.IsNormal := by
  rw [normalised, if_pos h]
  exact isNormal_ofNames fun n hn => isName_of_mem_names hn

/-- A path as seen from an absolute one is absolute. -/
theorem isAbsolute_join (h : p.isAbsolute = true) : (p.join q).isAbsolute = true := by
  have hhead : p.text.head? = some '/' := by simpa [isAbsolute] using h
  obtain ⟨rest, htext⟩ : ∃ rest, p.text = '/' :: rest := List.head?_eq_some_iff.1 hhead
  rw [join]
  split
  · next hq => exact hq
  · split <;> simp [isAbsolute, htext]

/-- A normal path stays as it is wherever it is seen from. -/
theorem IsNormal.normalised_join (h : q.IsNormal) : (p.join q).normalised = q := by
  rw [join, if_pos h.isAbsolute, h.normalised]

/-- **A relative path is followed from where the other one leads**, part by part. -/
theorem names_join (hp : p.isAbsolute = true) (hq : q.isAbsolute = false) :
    (p.join q).names = q.parts.foldl Part.onto p.names := by
  have hpieces : ((p.join q).text.pieces '/').filterMap Part.ofPiece? =
      (p.text.pieces '/').filterMap Part.ofPiece? ++
        (q.text.pieces '/').filterMap Part.ofPiece? := by
    have hne : p.text.isEmpty = false := by
      cases htext : p.text with
      | nil => simp [isAbsolute, htext] at hp
      | cons c rest => rfl
    rw [join, hq, if_neg Bool.false_ne_true, hne, Bool.false_or]
    by_cases hlast : p.text.getLast? = some '/'
    · -- the slash at the end of the first path serves as the one in between
      obtain ⟨init, htext⟩ : ∃ init, p.text = init ++ ['/'] :=
        ⟨p.text.dropLast, (List.dropLast_append_getLast? '/' hlast).symm⟩
      have hempty : Part.ofPiece? [] = none := rfl
      rw [if_pos (decide_eq_true hlast), htext, List.append_assoc, List.singleton_append,
        pieces_append_cons, pieces_append_cons, List.filterMap_append, List.filterMap_append]
      simp [Text.pieces, hempty]
    · rw [if_neg (by simpa using hlast), pieces_append_cons, List.filterMap_append]
  rw [names, names, foldl_parts, foldl_parts, foldl_parts, hpieces, List.foldl_append]

/-- One name more is joined behind a slash. -/
theorem joined_concat {sep : Text} (hns : ns ≠ []) :
    Text.joined sep (ns ++ [n]) = Text.joined sep ns ++ sep ++ n := by
  induction ns with
  | nil => exact absurd rfl hns
  | cons m ns ih =>
    cases ns with
    | nil => simp
    | cons k ns =>
      rw [List.cons_append, List.cons_append, Text.joined_cons_cons, ← List.cons_append,
        ih (by simp), Text.joined_cons_cons]
      simp

/-- A name by itself is a relative path. -/
theorem isAbsolute_of_isName (hn : IsName n) : (Path.mk n).isAbsolute = false := by
  rw [isAbsolute, decide_eq_false_iff_not]
  exact fun hhead => hn.2.2.2 (List.mem_of_head? hhead)

/-- **An entry of a directory with a normal path** has the normal path with one name more. -/
theorem IsNormal.child (h : directory.IsNormal) (hn : IsName n) :
    directory.child n = ofNames (directory.names ++ [n]) := by
  have htext : directory.text = '/' :: Text.joined ['/'] directory.names := by
    rw [← congrArg text (show ofNames directory.names = directory from h)]
    rfl
  rw [Path.child, join, isAbsolute_of_isName hn, if_neg Bool.false_ne_true, htext]
  -- the root ends with its slash, any other directory is joined by one
  by_cases hns : directory.names = []
  · simp [hns, ofNames]
  · have hnames : ∀ n ∈ directory.names, IsName n := fun n hn => isName_of_mem_names hn
    obtain ⟨hlast, hne⟩ := getLast?_joined_ne hns hnames
    rw [← List.getLast?_cons_of_ne_nil hne] at hlast
    rw [if_neg (by simpa using hlast), ofNames, joined_concat hns]
    simp

/-- It is normal, and its names are those of the directory and its own. -/
theorem IsNormal.names_child (h : directory.IsNormal) (hn : IsName n) :
    (directory.child n).IsNormal ∧ (directory.child n).names = directory.names ++ [n] := by
  have hnames : ∀ m ∈ directory.names ++ [n], IsName m := by
    intro m hm
    rcases List.mem_append.1 hm with hm | hm
    · exact isName_of_mem_names hm
    · rwa [List.mem_singleton.1 hm]
  rw [h.child hn]
  exact ⟨isNormal_ofNames hnames, names_ofNames hnames⟩

/-! ## Paths without dots, absolute or not

A relative path with its dots carried out is its names, joined. It is no normal path, but the same
can be said of it. -/

/-- Names that are joined do not start with a slash. -/
theorem isAbsolute_joined (h : ∀ n ∈ ns, IsName n) :
    (Path.mk (Text.joined ['/'] ns)).isAbsolute = false := by
  rw [isAbsolute, decide_eq_false_iff_not]
  intro hhead
  cases ns with
  | nil => cases hhead
  | cons n ns =>
    obtain ⟨hne, -, -, hslash⟩ := h n List.mem_cons_self
    have hfirst : (Text.joined ['/'] (n :: ns)).head? = n.head? := by
      cases ns with
      | nil => rw [Text.joined_singleton]
      | cons m ns =>
        rw [Text.joined_cons_cons, List.append_assoc, List.head?_append_of_ne_nil _ hne]
    exact hslash (List.mem_of_head? (hfirst ▸ hhead))

/-- Names that are joined come down to themselves. -/
theorem names_joined (h : ∀ n ∈ ns, IsName n) : (Path.mk (Text.joined ['/'] ns)).names = ns := by
  have hparts : ((Text.joined ['/'] ns).pieces '/').filterMap Part.ofPiece? = ns.map .name := by
    rw [pieces_joined h, ← filterMap_of_isName (fun n hn => (ofPiece?_of_isName hn).1) h]
    split
    · next hns => simp [hns, Part.ofPiece?]
    · rfl
  rw [names, foldl_parts, hparts, foldl_onto_map_name, List.nil_append]

/-- A path keeps its names when its dots are carried out. -/
theorem names_normalised (p : Path) : p.normalised.names = p.names := by
  rw [normalised]
  split
  · exact names_ofNames fun n hn => isName_of_mem_names hn
  · exact names_joined fun n hn => isName_of_mem_names hn

/-- It stays absolute, or relative. -/
theorem isAbsolute_normalised (p : Path) : p.normalised.isAbsolute = p.isAbsolute := by
  rw [normalised]
  split
  · next h => exact h.symm
  · next h =>
    rw [isAbsolute_joined fun n hn => isName_of_mem_names hn]
    exact (Bool.not_eq_true _ ▸ h).symm

/-- **Carrying the dots out once is enough.** -/
theorem normalised_normalised (p : Path) : p.normalised.normalised = p.normalised := by
  rw [normalised, isAbsolute_normalised, names_normalised, ← normalised]

/-- A relative path that leaves the names of a normal one as they are leads nowhere else. -/
theorem IsNormal.normalised_join_of_stays (h : p.IsNormal) (hq : q.isAbsolute = false)
    (stays : q.parts.foldl Part.onto p.names = p.names) : (p.join q).normalised = p := by
  have hjoin : (p.join q).names = p.names := (names_join h.isAbsolute hq).trans stays
  apply (isNormal_normalised (isAbsolute_join h.isAbsolute)).ext h
  rw [names_normalised, hjoin]

/-- **An entry of a directory without dots** in its path has a path without dots, which has one name
more and starts where that of the directory starts. -/
theorem normalised_child (h : directory.normalised = directory) (hn : IsName n) :
    (directory.child n).normalised = directory.child n ∧
      (directory.child n).names = directory.names ++ [n] ∧
      (directory.child n).isAbsolute = directory.isAbsolute := by
  by_cases habsolute : directory.isAbsolute = true
  · have hnormal : directory.IsNormal := h ▸ isNormal_normalised habsolute
    obtain ⟨hchild, hnames⟩ := hnormal.names_child hn
    exact ⟨hchild.normalised, hnames, hchild.isAbsolute.trans habsolute.symm⟩
  · have hnames : ∀ m ∈ directory.names, IsName m := fun m hm => isName_of_mem_names hm
    have hall : ∀ m ∈ directory.names ++ [n], IsName m :=
      List.forall_mem_append.2 ⟨hnames, List.forall_mem_singleton.2 hn⟩
    have htext : directory.text = Text.joined ['/'] directory.names := by
      rw [normalised, if_neg habsolute] at h
      exact congrArg text h.symm
    have hchild : directory.child n = ⟨Text.joined ['/'] (directory.names ++ [n])⟩ := by
      rw [child, join, isAbsolute_of_isName hn, if_neg Bool.false_ne_true, htext]
      -- the directory from which a relative path starts has no text to be joined to
      by_cases hns : directory.names = []
      · simp [hns]
      · obtain ⟨hlast, hne⟩ := getLast?_joined_ne hns hnames
        rw [if_neg (by simpa [hne] using hlast), joined_concat hns]
        simp
    rw [hchild, normalised, isAbsolute_joined hall, if_neg Bool.false_ne_true, names_joined hall]
    exact ⟨rfl, rfl, (Bool.not_eq_true _ ▸ habsolute).symm⟩

end Path

/-- **The path that a word names** in an absolute working directory is normal. -/
theorem isNormal_resolve {cwd home : Path} (h : cwd.isAbsolute = true) (word : Text) :
    (resolve cwd home word).IsNormal :=
  Path.isNormal_normalised (Path.isAbsolute_join h)

/-- **A dot names the working directory.** -/
theorem resolve_dot {cwd : Path} (h : cwd.IsNormal) (home : Path) :
    resolve cwd home ['.'] = cwd := by
  rw [resolve, expandTilde_of_plain home (by decide) (by simp)]
  exact h.normalised_join_of_stays rfl rfl

/-- So does a word without a text. -/
theorem resolve_nil {cwd : Path} (h : cwd.IsNormal) (home : Path) : resolve cwd home [] = cwd := by
  rw [resolve, expandTilde_of_plain home (by decide) (by simp)]
  exact h.normalised_join_of_stays rfl rfl

end FileShell
