import FileShell.Proofs.Path.Normal

/-! # The texts that words resolve to

A word is resolved in three steps, all of them on its text: a tilde is replaced (`ReplacesTilde`),
the working directory is put in front of what does not start at the root, and the pieces between the
slashes go onto a stack one by one (`onStack`). The names that are left on the stack are the path.

* **`names_eq_stackOf`** — the names that a path comes down to are those left on the stack.
* **`Path.IsNormal.isCanonical`** — the text of a normal path holds nothing superfluous.
* **`resolve_canonical`** — so does what a word resolves to, and it resolves to itself. -/

namespace FileShell

/-! ## Steps on texts -/

/-- **A word and the same word with its tilde replaced** by the text of the home directory. Only a
tilde that is all of the word or stands in front of a slash is replaced. -/
inductive ReplacesTilde (home : Text) : Text → Text → Prop
  /-- The tilde is all of the word. -/
  | alone : ReplacesTilde home ['~'] home
  /-- A slash follows the tilde. -/
  | leading (rest : Text) : ReplacesTilde home ('~' :: '/' :: rest) (home ++ '/' :: rest)
  /-- There is no such tilde. -/
  | plain {word : Text} (alone : word ≠ ['~']) (leading : ∀ rest, word ≠ '~' :: '/' :: rest) :
      ReplacesTilde home word word

/-- **A stack of names after one more piece**, its top first. An empty piece and a dot leave it as it
is, two dots take away the top, if there is one, and any other piece is the new top. -/
def onStack (stack : List Text) (piece : Text) : List Text :=
  if piece = [] ∨ piece = ['.'] then stack
  else if piece = ['.', '.'] then stack.tail
  else piece :: stack

/-- **The stack after all pieces of a text.** -/
def stackOf (t : Text) : List Text := (t.pieces '/').foldl onStack []

/-- **A text with nothing superfluous in it, as the text of an absolute path.** -/
structure IsCanonical (t : Text) : Prop where
  /-- It starts at the root. -/
  absolute : t.head? = some '/'
  /-- None of its pieces is made of dots that lead to where one is, or up. -/
  undotted : ∀ piece ∈ t.pieces '/', piece ≠ ['.'] ∧ piece ≠ ['.', '.']
  /-- Nowhere do two slashes stand next to each other, or one at the end. -/
  filled : t ≠ ['/'] → [] ∉ (t.pieces '/').tail
  /-- No slash stands at its end. -/
  unended : t ≠ ['/'] → t.getLast? ≠ some '/'

variable {cwd home : Path} {word t : Text}

/-- The tilde is replaced as it is when the word is resolved. -/
theorem replacesTilde_iff : ReplacesTilde home.text word t ↔ t = (expandTilde home word).text := by
  constructor
  · intro h
    cases h with
    | alone => rfl
    | leading rest => rfl
    | plain alone leading => rw [expandTilde_of_plain home alone leading]
  · rintro rfl
    rw [expandTilde.eq_def]
    split
    · exact .alone
    · next rest => exact .leading rest
    · next alone leading =>
      exact .plain alone leading

/-! ## The stack -/

/-- **One more piece does to a stack what its part does to the names**, which stand the other way
round. -/
theorem reverse_onStack (stack : List Text) (piece : Text) :
    (onStack stack piece).reverse =
      ((Part.ofPiece? piece).elim stack.reverse (Part.onto stack.reverse)) := by
  rw [onStack, Part.ofPiece?]
  split
  · rfl
  · split
    · rw [Option.elim_some, Part.onto, List.dropLast_reverse]
    · rw [Option.elim_some, Part.onto, List.reverse_cons]

/-- All pieces do to a stack what their parts do to the names. -/
theorem reverse_foldl_onStack (pieces stack : List Text) :
    (pieces.foldl onStack stack).reverse =
      (pieces.filterMap Part.ofPiece?).foldl Part.onto stack.reverse := by
  induction pieces generalizing stack with
  | nil => rfl
  | cons piece pieces ih =>
    rw [List.foldl_cons, ih, reverse_onStack, List.filterMap_cons]
    cases Part.ofPiece? piece with
    | none => rfl
    | some part => rfl

namespace Path

/-- **The names that a path comes down to are those left on the stack**, from the bottom to the
top. -/
theorem names_eq_stackOf (p : Path) : p.names = (stackOf p.text).reverse := by
  rw [names, foldl_parts, stackOf, reverse_foldl_onStack, List.reverse_nil]

/-- A path as seen from an absolute one comes down to what is left of both texts, one behind the
other. -/
theorem names_join_eq_stackOf (absolute : cwd.isAbsolute = true) (q : Path) :
    (cwd.join q).names =
      (stackOf (if q.isAbsolute then q.text else cwd.text ++ '/' :: q.text)).reverse := by
  cases hq : q.isAbsolute with
  | true => rw [join, hq, if_pos rfl, if_pos rfl, names_eq_stackOf]
  | false =>
    rw [names_join absolute hq, names_eq_stackOf, foldl_parts, ← reverse_foldl_onStack,
      if_neg Bool.false_ne_true, stackOf, stackOf, pieces_append_cons, List.foldl_append]

/-! ## Canonical texts -/

/-- **The text of a normal path is canonical.** -/
theorem IsNormal.isCanonical {p : Path} (h : p.IsNormal) : IsCanonical p.text := by
  have hnames : ∀ n ∈ p.names, IsName n := fun n hn => isName_of_mem_names hn
  have htext : p.text = '/' :: Text.joined ['/'] p.names := congrArg text h.symm
  have hpieces : p.text.pieces '/' = [] :: if p.names = [] then [[]] else p.names := by
    rw [← pieces_ofNames hnames, show ofNames p.names = p from h]
  -- only the root has no names
  have hne : p.text ≠ ['/'] → p.names ≠ [] := by
    intro hroot hnone
    exact hroot (by rw [htext, hnone, Text.joined_nil])
  refine ⟨by rw [htext, List.head?_cons], h.pieces_ne, ?_, ?_⟩
  · intro hroot hempty
    rw [hpieces, if_neg (hne hroot), List.tail_cons] at hempty
    exact (hnames [] hempty).1 rfl
  · intro hroot
    obtain ⟨hlast, hnonempty⟩ := getLast?_joined_ne (hne hroot) hnames
    rwa [htext, List.getLast?_cons_of_ne_nil hnonempty]

/-- A normal path is what its text resolves to, from any directory and with any home. -/
theorem IsNormal.resolve_text {p : Path} (h : p.IsNormal) (cwd home : Path) :
    resolve cwd home p.text = p := by
  have htext : p.text = '/' :: Text.joined ['/'] p.names := congrArg text h.symm
  rw [resolve, expandTilde_of_plain home (by simp [htext]) (by simp [htext]), h.normalised_join]

end Path

/-- **What a word resolves to is canonical and final.** Its tilde is replaced in one way only. What
comes out, behind the text of the working directory unless it starts at the root, goes onto a stack
piece by piece, and the text of the path is the names left on the stack, each behind a slash. That
text starts at the root, has no dots, no empty pieces and no slash at its end that the root does not
need, and it resolves to the same path again, from any working directory and with any home. -/
theorem resolve_canonical {cwd : Path} (absolute : cwd.isAbsolute = true) (home : Path)
    (word : Text) :
    (∃ expanded, ReplacesTilde home.text word expanded ∧
      (∀ other, ReplacesTilde home.text word other → other = expanded) ∧
      (resolve cwd home word).text = '/' :: Text.joined ['/'] (stackOf
        (if expanded.head? = some '/' then expanded else cwd.text ++ '/' :: expanded)).reverse) ∧
      IsCanonical (resolve cwd home word).text ∧
      ∀ cwd' home' : Path,
        resolve cwd' home' (resolve cwd home word).text = resolve cwd home word := by
  have hnormal : (resolve cwd home word).IsNormal := isNormal_resolve absolute word
  refine ⟨⟨(expandTilde home word).text, replacesTilde_iff.2 rfl,
    fun other h => replacesTilde_iff.1 h, ?_⟩, hnormal.isCanonical, hnormal.resolve_text⟩
  have hnames := Path.names_join_eq_stackOf absolute (expandTilde home word)
  rw [resolve, Path.normalised, if_pos (Path.isAbsolute_join absolute), Path.ofNames, hnames]
  simp only [Path.isAbsolute, decide_eq_true_eq]

/-- Up and down again, through a home with superfluous slashes. -/
theorem resolve_canonical_home :
    (Path.mk "/w".toList).isAbsolute = true ∧
      resolve ⟨"/w".toList⟩ ⟨"//h//".toList⟩ "~/.././/../a/..b/.".toList = ⟨"/a/..b".toList⟩ ∧
      IsCanonical "/a/..b".toList := by
  have absolute : (Path.mk "/w".toList).isAbsolute = true := by decide
  have hpath : resolve ⟨"/w".toList⟩ ⟨"//h//".toList⟩ "~/.././/../a/..b/.".toList =
      ⟨"/a/..b".toList⟩ := by decide +kernel
  obtain ⟨-, hcanonical, -⟩ :=
    resolve_canonical absolute ⟨"//h//".toList⟩ "~/.././/../a/..b/.".toList
  rw [hpath] at hcanonical
  exact ⟨absolute, hpath, hcanonical⟩

end FileShell
