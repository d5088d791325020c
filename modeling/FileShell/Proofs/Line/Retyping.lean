import FileShell.Proofs.Line.Printing

/-! # Shown words typed again

A message shows a word in such a way that it can be copied back into a line. Reading a line knows no
escapes, so this works for the words that need none: those without a backslash and without both
kinds of quotes. For them it does not matter which characters rule out which style, or where one
chunk ends and the next one begins, since **every chunk is collected as it is** by the reading side.

* **`Text.Retypable`** — the words that can be typed as they are shown.
* **`Styles.Fits`** — what the styles that are left to a chunk say about its characters.
* **`Styles.Fits.tokensFrom_write`** — a chunk is collected as it is; `tokensFrom_shownFrom` goes on
  to all of a word's chunks.
* **`ofText_shownWords`** — shown words are read again. -/

namespace FileShell

/-- **A text that is written without an escape**, in whatever style: it has no backslash, and not
both kinds of quotes. -/
structure Text.Unescaped (t : Text) : Prop where
  no_backslash : '\\' ∉ t
  one_quote : '\'' ∉ t ∨ '"' ∉ t

/-- **A word that can be typed as it is shown.** -/
structure Text.Retypable (word : Text) : Prop extends Text.Unescaped word where
  ne_nil : word ≠ []
  no_null : '\x00' ∉ word

/-- Whatever holds fewer characters needs no more escapes. -/
theorem Text.Unescaped.mono {s t : Text} (h : t.Unescaped) (hsub : ∀ c ∈ s, c ∈ t) :
    s.Unescaped where
  no_backslash hs := h.no_backslash (hsub _ hs)
  one_quote := h.one_quote.imp (fun ht hs => ht (hsub _ hs)) fun ht hs => ht (hsub _ hs)

/-- Words as messages show them, with a blank between each two. -/
def shownWords (words : List Text) : Text := Text.joined [' '] (words.map shown)

/-! ## One chunk -/

/-- The characters that stand for themselves outside quotes lie apart from blanks, quotes, bars and
operators. -/
theorem bounds_of_plain {c : Char} (h : (Styles.ofChar c).plain = true) :
    43 ≤ c.toNat ∧ c.toNat ≤ 122 ∧ c.toNat ≠ 62 := by
  have hcases : c.isAlphanum = true ∨ c ∈ Styles.plainPunctuation := by
    simpa [Styles.ofChar] using h
  rcases hcases with halnum | hmem
  · -- capitals, small letters and digits
    change (decide (c.val ≥ 65 ∧ c.val ≤ 90) || (c.val ≥ 97 && c.val ≤ 122) ||
      (c.val ≥ 48 && c.val ≤ 57)) = true at halnum
    simp only [Bool.or_eq_true, Bool.and_eq_true, decide_eq_true_eq, UInt32.le_iff_toNat_le,
      ge_iff_le, or_assoc] at halnum
    change 65 ≤ c.toNat ∧ c.toNat ≤ 90 ∨ 97 ≤ c.toNat ∧ c.toNat ≤ 122 ∨
      48 ≤ c.toNat ∧ c.toNat ≤ 57 at halnum
    omega
  · have hall : (Styles.plainPunctuation.all fun d =>
        decide (43 ≤ d.toNat ∧ d.toNat ≤ 122 ∧ d.toNat ≠ 62)) = true := by decide
    exact of_decide_eq_true (List.all_eq_true.1 hall c hmem)

/-- A plain character belongs to the word that is collected. -/
theorem tokensFrom_plain_cons {c : Char} (h : (Styles.ofChar c).plain = true)
    (collected rest : Text) :
    tokensFrom none collected (c :: rest) = tokensFrom none (collected ++ [c]) rest := by
  obtain ⟨hleast, hgreatest, hsign⟩ := bounds_of_plain h
  have hne {d : Char} (hd : d.toNat < 43 ∨ 122 < d.toNat ∨ d.toNat = 62) : c ≠ d := by
    rintro rfl
    omega
  have hquote : isQuote c = false := by
    simp [isQuote, hne (d := '\'') (by decide), hne (d := '"') (by decide)]
  have hblank : isBlank c = false := by
    simp only [isBlank, blankRanges, List.any_cons, List.any_nil, Bool.or_false,
      Bool.or_eq_false_iff, Bool.and_eq_false_iff, decide_eq_false_iff_not]
    omega
  rw [tokensFrom_none_cons (hne (by decide)) (hne (by decide))]
  simp [hquote, hblank]

/-- **A chunk without quotes is collected as it is.** -/
theorem tokensFrom_plain {chunk : Text} (h : ∀ c ∈ chunk, (Styles.ofChar c).plain = true)
    (collected rest : Text) :
    tokensFrom none collected (chunk ++ rest) = tokensFrom none (collected ++ chunk) rest := by
  induction chunk generalizing collected with
  | nil => simp
  | cons c chunk ih =>
    rw [List.cons_append, tokensFrom_plain_cons (h c List.mem_cons_self),
      ih (fun d hd => h d (List.mem_cons_of_mem _ hd)), List.append_assoc, List.singleton_append]

/-- What stands inside quotes is collected as it is, up to the quote that closes them. -/
theorem tokensFrom_inQuotes {q : Char} {chunk : Text} (h : q ∉ chunk) (collected rest : Text) :
    tokensFrom (some q) collected (chunk ++ q :: rest) =
      tokensFrom none (collected ++ chunk) rest := by
  induction chunk generalizing collected with
  | nil => simp
  | cons c chunk ih =>
    obtain ⟨hc, hchunk⟩ : q ≠ c ∧ q ∉ chunk := by simpa using h
    rw [List.cons_append, tokensFrom_some_cons, if_neg (Ne.symm hc), ih hchunk, List.append_assoc,
      List.singleton_append]

/-- **A chunk in quotes is collected as it is**, if it does not hold the quote itself. -/
theorem tokensFrom_quoted {q : Char} (hq : isQuote q = true) {chunk : Text} (h : q ∉ chunk)
    (collected rest : Text) :
    tokensFrom none collected (q :: (chunk ++ q :: rest)) =
      tokensFrom none (collected ++ chunk) rest := by
  have hs : q ≠ '>' := by rintro rfl; exact absurd hq (by decide)
  have hb : q ≠ '|' := by rintro rfl; exact absurd hq (by decide)
  rw [tokensFrom_none_cons hs hb, if_pos hq, tokensFrom_inQuotes h]

namespace Styles

/-- **What the styles left to a chunk say about it.** A style is left only if every character can be
written in it, and the single quotes are ruled out only by a character that cannot stand between
them. -/
structure Fits (s : Styles) (chunk : Text) : Prop where
  plain : s.plain = true → ∀ c ∈ chunk, (ofChar c).plain = true
  single : s.single = true → '\'' ∉ chunk
  double : s.double = true → ∀ c ∈ chunk, (ofChar c).double = true
  ruled_out : s.single = false → ∃ c ∈ chunk, c ∈ singleExceptions
  some_left : s.isNone = false

/-- A character rules single quotes out if it cannot stand between them. -/
theorem single_ofChar {c : Char} : (ofChar c).single = false ↔ c ∈ singleExceptions := by
  simp [ofChar]

/-- A character can stand between double quotes if it is none of the exceptions. -/
theorem double_ofChar {c : Char} : (ofChar c).double = true ↔ c ∉ doubleExceptions := by
  simp [ofChar]

/-- The single quote cannot stand between single quotes. -/
theorem ne_singleQuote {c : Char} (h : (ofChar c).single = true) : c ≠ '\'' := by
  rintro rfl
  cases h

/-- **A style is left to every character**, a caret excepted. -/
theorem isNone_ofChar {c : Char} (h : c ≠ '^') : (ofChar c).isNone = false := by
  by_cases hsingle : c ∈ singleExceptions
  · obtain rfl | rfl : c = '\'' ∨ c = '\\' := by simpa [singleExceptions, h] using hsingle
    · rfl
    · rfl
  · have hleft : (ofChar c).single = true := by simpa [ofChar] using hsingle
    simp [isNone, hleft]

/-- The styles of a chunk's first character. -/
theorem fits_start (c : Char) : (start c).Fits [c] := by
  by_cases hcaret : c = '^'
  · subst hcaret
    exact ⟨by decide, by decide, by decide, by decide, by decide⟩
  · rw [start, if_neg hcaret]
    refine ⟨by simp, fun hsingle => ?_, by simp, fun hsingle => ?_, isNone_ofChar hcaret⟩
    · simpa using Ne.symm (ne_singleQuote hsingle)
    · exact ⟨c, List.mem_singleton_self c, single_ofChar.1 hsingle⟩

/-- **One character more** leaves the styles that can write it, too. -/
theorem Fits.concat {s : Styles} {chunk : Text} (h : s.Fits chunk) {c : Char}
    (left : (s.meet (ofChar c)).isNone = false) : (s.meet (ofChar c)).Fits (chunk ++ [c]) where
  plain hs := by
    obtain ⟨hchunk, hc⟩ : s.plain = true ∧ (ofChar c).plain = true := by simpa [meet] using hs
    exact List.forall_mem_append.2 ⟨h.plain hchunk, List.forall_mem_singleton.2 hc⟩
  single hs := by
    obtain ⟨hchunk, hc⟩ : s.single = true ∧ (ofChar c).single = true := by simpa [meet] using hs
    simpa [h.single hchunk] using Ne.symm (ne_singleQuote hc)
  double hs := by
    obtain ⟨hchunk, hc⟩ : s.double = true ∧ (ofChar c).double = true := by simpa [meet] using hs
    exact List.forall_mem_append.2 ⟨h.double hchunk, List.forall_mem_singleton.2 hc⟩
  ruled_out hs := by
    have hcases : s.single = false ∨ (ofChar c).single = false := Bool.and_eq_false_iff.1 hs
    rcases hcases with hchunk | hc
    · obtain ⟨d, hd, hexception⟩ := h.ruled_out hchunk
      exact ⟨d, List.mem_append_left _ hd, hexception⟩
    · exact ⟨c, List.mem_append_right _ (List.mem_singleton_self c), single_ofChar.1 hc⟩
  some_left := left

/-- A chunk that only double quotes can hold has a single quote, and then no double one. -/
theorem Fits.doubleQuote_not_mem {s : Styles} {chunk : Text} (h : s.Fits chunk)
    (unescaped : chunk.Unescaped) (single : s.single = false) (double : s.double = true) :
    '"' ∉ chunk := by
  obtain ⟨c, hc, hexception⟩ := h.ruled_out single
  have hcaret : c ≠ '^' := by
    rintro rfl
    exact absurd (h.double double _ hc) (by decide)
  have hbackslash : c ≠ '\\' := by
    rintro rfl
    exact unescaped.no_backslash hc
  obtain rfl : c = '\'' := by simpa [singleExceptions, hcaret, hbackslash] using hexception
  exact unescaped.one_quote.resolve_left fun hno => hno hc

/-- Between double quotes nothing is put behind a backslash if there is nothing to escape. -/
theorem Fits.flatMap_escaped {s : Styles} {chunk : Text} (h : s.Fits chunk)
    (unescaped : chunk.Unescaped) (double : s.double = true) (quote : '"' ∉ chunk) :
    chunk.flatMap escaped = chunk := by
  have hescaped : ∀ c ∈ chunk, escaped c = [c] := by
    intro c hc
    have hexception : c ∉ doubleExceptions := double_ofChar.1 (h.double double c hc)
    have hquote : c ≠ '"' := fun heq => quote (heq ▸ hc)
    have hbackslash : c ≠ '\\' := fun heq => unescaped.no_backslash (heq ▸ hc)
    have hnone : c ∉ doubleEscapes := by
      simp only [doubleExceptions, doubleEscapes, List.mem_cons, List.not_mem_nil] at hexception ⊢
      tauto
    simp [escaped, hnone]
  rw [List.flatMap_congr hescaped]
  simp

/-- **A chunk is collected as it is**, in whatever style it is written. -/
theorem Fits.tokensFrom_write {s : Styles} {chunk : Text} (h : s.Fits chunk)
    (unescaped : chunk.Unescaped) (collected rest : Text) :
    tokensFrom none collected (s.write chunk ++ rest) =
      tokensFrom none (collected ++ chunk) rest := by
  unfold write
  cases hplain : s.plain with
  | true => exact tokensFrom_plain (h.plain hplain) collected rest
  | false =>
    cases hsingle : s.single with
    | true => simpa using tokensFrom_quoted (by decide) (h.single hsingle) collected rest
    | false =>
      have hdouble : s.double = true := by simpa [isNone, hplain, hsingle] using h.some_left
      have hquote := h.doubleQuote_not_mem unescaped hsingle hdouble
      have hchunk := h.flatMap_escaped unescaped hdouble hquote
      simpa [hchunk] using tokensFrom_quoted (by decide) hquote collected rest

end Styles

/-! ## Whole words -/

/-- **The chunks of a word are collected** one after the other, whatever styles they are written
in. -/
theorem tokensFrom_shownFrom {s : Styles} {chunk word : Text} (h : s.Fits chunk)
    (unescaped : Text.Unescaped (chunk ++ word)) (collected rest : Text) :
    tokensFrom none collected (shownFrom s chunk word ++ rest) =
      tokensFrom none (collected ++ (chunk ++ word)) rest := by
  have hchunk : chunk.Unescaped := unescaped.mono fun c hc => List.mem_append_left _ hc
  induction word generalizing s chunk collected with
  | nil => rw [shownFrom, h.tokensFrom_write hchunk, List.append_nil]
  | cons c word ih =>
    rw [shownFrom]
    split
    · -- the character begins a chunk of its own
      have hword : Text.Unescaped ([c] ++ word) :=
        unescaped.mono fun d hd => List.mem_append_right _ hd
      have hfirst : Text.Unescaped [c] := hword.mono fun d hd => List.mem_append_left _ hd
      rw [List.append_assoc, h.tokensFrom_write hchunk, ih (Styles.fits_start c) hword _ hfirst,
        List.append_assoc]
      rfl
    · -- the character belongs to the open chunk
      next left =>
      have hassoc : chunk ++ c :: word = chunk ++ [c] ++ word := by simp
      rw [hassoc] at unescaped ⊢
      have hlonger : Text.Unescaped (chunk ++ [c]) :=
        unescaped.mono fun d hd => List.mem_append_left _ hd
      exact ih (h.concat (by simpa using left)) unescaped collected hlonger

/-- **A shown word is collected as the word.** -/
theorem tokensFrom_shown {word : Text} (h : word.Retypable) (rest : Text) :
    tokensFrom none [] (shown word ++ rest) = tokensFrom none word rest := by
  cases word with
  | nil => exact absurd rfl h.ne_nil
  | cons c word =>
    rw [shown, if_neg h.no_null]
    exact tokensFrom_shownFrom (Styles.fits_start c) h.toUnescaped [] rest

/-- The tokens of shown words are the words. -/
theorem tokensOf_shownWords {words : List Text} (hne : words ≠ [])
    (retypable : ∀ word ∈ words, word.Retypable) :
    tokensOf (shownWords words) = .ok (words.map .word) := by
  have hends (word : Text) : tokensFrom none word [] = Token.afterWord word <$> .ok [] :=
    tokensFrom_none_nil word
  have hnonempty : ∀ word ∈ words, word ≠ [] := fun word hword => (retypable word hword).ne_nil
  have htokens := tokensFrom_writtenWords hends hne hnonempty
    fun word hword => tokensFrom_shown (retypable word hword)
  rw [List.append_nil, Outcome.map_ok, List.append_nil] at htokens
  exact htokens

/-- **Shown words are read again.** The line of one or more words, each as messages show it, with
blanks between them, is one stage, and what is read from that are the words and no redirection,
whatever characters they are made of, as long as none of them has a backslash or both kinds of
quotes. -/
theorem ofText_shownWords {command : Text} {words : List Text}
    (retypable : ∀ word ∈ command :: words, word.Retypable) :
    ∃ text, stageTexts true (shownWords (command :: words)) = .ok [text] ∧
      Draft.ofText text = .ok ⟨command, words, none⟩ := by
  have htokens := tokensOf_shownWords (List.cons_ne_nil command words) retypable
  have hline : IsLine ((command :: words).map .word) [⟨command, words, none⟩] :=
    .last (.plain command words)
  obtain ⟨texts, htexts, hread⟩ :=
    (reads_iff_isLine (shownWords (command :: words)) [⟨command, words, none⟩]).2
      ⟨_, htokens, hline⟩
  -- one draft is read from one text
  obtain ⟨text, rest, hdraft, hrest, rfl⟩ :=
    List.forall₂_cons_right_iff.1 (Outcome.mapM_eq_ok_iff.1 hread)
  obtain rfl := List.forall₂_nil_right_iff.1 hrest
  exact ⟨text, htexts, hdraft⟩

/-- Blanks, an operator and a bar, quotes of each kind, carets and a character of two bytes. -/
theorem ofText_shownWords_unusual :
    let command : Text := "cat".toList
    let words : List Text := ["it's > a|b".toList, "^'^".toList, "é\"$(x)".toList]
    shownWords (command :: words) = "cat \"it's > a|b\" '^'\"'\"'^' 'é\"$(x)'".toList ∧
      (∀ word ∈ command :: words, word.Retypable) ∧
      ∃ text, stageTexts true (shownWords (command :: words)) = .ok [text] ∧
        Draft.ofText text = .ok ⟨command, words, none⟩ := by
  intro command words
  have retypable : ∀ word ∈ command :: words, word.Retypable := by
    have each : ∀ word ∈ command :: words,
        ('\\' ∉ word ∧ ('\'' ∉ word ∨ '"' ∉ word)) ∧ word ≠ [] ∧ '\x00' ∉ word := by decide
    intro word hword
    obtain ⟨⟨hbackslash, hquote⟩, hne, hnull⟩ := each word hword
    exact ⟨⟨hbackslash, hquote⟩, hne, hnull⟩
  exact ⟨by decide, retypable, ofText_shownWords retypable⟩

/-- A word with both kinds of quotes is shown with an escape, which reading does not know. -/
example : wordsOf (shown "$'\"".toList) ≠ .ok ["$'\"".toList] := by decide

end FileShell
