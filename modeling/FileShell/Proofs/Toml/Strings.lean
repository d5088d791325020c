import FileShell.Toml.Strings
import FileShell.Toml.Writer

/-! # Strings read back

A text is written in one of four ways, and every reader undoes the way that is its own. Between double
quotes each character is written by itself, as it is or as an escape, and is read by itself
(`TakesEscapes`). Between three quotes a reader looks ahead: up to two quotes in a row are taken for
what they are only if the text goes on behind them or the closing quotes follow.

* **`basicString_flatMap`**, **`literalString_append`** — strings on one line.
* **`basicLines_basicLinesText`**, **`literalLines_append`** — strings on several lines.
* **`anyString_writeString`** — every text is read back from what is written for it. -/

namespace FileShell.Toml

/-! ## Characters -/

/-- What need not be escaped, and is no newline, may stand as it is. -/
theorem isPlain_of_not_needsEscape {c : Char} (h : needsEscape c = false) (hline : c ≠ '\n') :
    isPlain c = true := by
  by_cases htab : c = '\t'
  · subst htab
    rfl
  · simp [needsEscape, htab, hline] at h
    simp [isPlain, h]

/-- A character in four hexadecimal digits, as far as that is needed. -/
theorem exists_hexPadded {n : Nat} (h : n < 128) : ∃ a b c d, Text.hexPadded 4 n = [a, b, c, d] ∧
    scalar? [a, b, c, d] = some (Char.ofNat n) := by
  have hall : ∀ n < 128, (Text.hexPadded 4 n).length = 4 ∧
      scalar? (Text.hexPadded 4 n) = some (Char.ofNat n) := by decide +kernel
  obtain ⟨hlength, hscalar⟩ := hall n h
  match hdigits : Text.hexPadded 4 n, hlength with
  | [a, b, c, d], _ =>
    rw [hdigits] at hscalar
    exact ⟨a, b, c, d, rfl, hscalar⟩

/-- An escape begins with a backslash. -/
theorem head?_escaped (c : Char) : (escaped c).head? = some '\\' := by
  unfold escaped
  repeat' split
  all_goals rfl

/-- What is written for a character is an escape, and the character is among the first of all, or it
is the character itself. -/
theorem basicChar_cases (c : Char) :
    (basicChar c = escaped c ∧ c.toNat < 128) ∨
      (basicChar c = [c] ∧ needsEscape c = false ∧ c ≠ '\n' ∧ c ≠ '"' ∧ c ≠ '\\') := by
  unfold basicChar
  split
  · next hescape =>
    refine .inl ⟨rfl, ?_⟩
    rcases Bool.or_eq_true_iff.1 hescape with hneeds | hspecial
    · simp only [needsEscape, Bool.and_eq_true, Bool.or_eq_true, decide_eq_true_eq] at hneeds
      omega
    · simp only [List.contains_cons, List.contains_nil, Bool.or_false, Bool.or_eq_true,
        beq_iff_eq] at hspecial
      rcases hspecial with rfl | rfl | rfl | rfl <;> decide
  · next hplain =>
    simp only [Bool.or_eq_true, not_or, Bool.not_eq_true, List.contains_cons, List.contains_nil,
      Bool.or_false, beq_eq_false_iff_ne] at hplain
    obtain ⟨hneeds, -, hline, hquote, hslash⟩ := hplain
    exact .inr ⟨rfl, hneeds, hline, hquote, hslash⟩

/-- What is written for a character begins with none that has to be escaped. -/
theorem head?_basicChar {d : Char} (hd : d = '"' ∨ d = '\r' ∨ d = '\n') (c : Char) (rest : Text) :
    (basicChar c ++ rest).head? ≠ some d := by
  rcases basicChar_cases c with ⟨heq, -⟩ | ⟨heq, hneeds, hline, hquote, -⟩
  · rw [heq, List.head?_append, head?_escaped]
    rcases hd with rfl | rfl | rfl <;> simp
  · rw [heq]
    have hreturn : c ≠ '\r' := by
      rintro rfl
      cases hneeds
    rcases hd with rfl | rfl | rfl <;> simpa

/-- **A reader takes escapes**, and plain characters as they are. -/
structure TakesEscapes (read : Text → Option (Text × Text)) : Prop where
  /-- A letter behind a backslash. -/
  named : ∀ {e c : Char} (rest : Text), escape? e = some c →
    read ('\\' :: e :: rest) = before c (read rest)
  /-- Four digits behind a backslash and a letter. -/
  coded : ∀ {a b c d e : Char} (rest : Text), scalar? [a, b, c, d] = some e →
    read ('\\' :: 'u' :: a :: b :: c :: d :: rest) = before e (read rest)
  /-- A character that stands for itself. -/
  plain : ∀ {c : Char} (rest : Text), isPlain c = true → c ≠ '"' → c ≠ '\\' →
    read (c :: rest) = before c (read rest)

namespace TakesEscapes

variable {read : Text → Option (Text × Text)}

/-- An escaped character is read back. -/
theorem escaped (h : TakesEscapes read) {c : Char} (hc : c.toNat < 128) (rest : Text) :
    read (Toml.escaped c ++ rest) = before c (read rest) := by
  unfold Toml.escaped
  split
  · next heq => exact heq ▸ h.named rest rfl
  split
  · next heq => exact heq ▸ h.named rest rfl
  split
  · next heq => exact heq ▸ h.named rest rfl
  split
  · next heq => exact heq ▸ h.named rest rfl
  split
  · next heq => exact heq ▸ h.named rest rfl
  split
  · next heq => exact heq ▸ h.named rest rfl
  split
  · next heq => exact heq ▸ h.named rest rfl
  · obtain ⟨a, b, x, d, hdigits, hscalar⟩ := exists_hexPadded hc
    rw [Char.ofNat_toNat] at hscalar
    rw [hdigits]
    exact h.coded rest hscalar

/-- **A character between double quotes is read back**, whether it is escaped or not. -/
theorem basicChar (h : TakesEscapes read) (c : Char) (rest : Text) :
    read (Toml.basicChar c ++ rest) = before c (read rest) := by
  rcases basicChar_cases c with ⟨heq, hascii⟩ | ⟨heq, hneeds, hline, hquote, hslash⟩
  · rw [heq]
    exact h.escaped hascii rest
  · rw [heq]
    exact h.plain rest (isPlain_of_not_needsEscape hneeds hline) hquote hslash

end TakesEscapes

theorem takesEscapes_basicString : TakesEscapes basicString where
  named {e c} rest h := by
    unfold escape? at h
    split at h <;> cases h <;> rfl
  coded {a b c d e} rest h := by
    show (scalar? [a, b, c, d] >>= fun e => before e (basicString rest)) = _
    rw [h]
    rfl
  plain {c} rest hplain hquote hslash := by
    rw [basicString.eq_def]
    split <;> simp_all

theorem takesEscapes_basicLines : TakesEscapes (basicLines false) where
  named {e c} rest h := by
    unfold escape? at h
    split at h <;> cases h <;> rfl
  coded {a b c d e} rest h := by
    show (scalar? [a, b, c, d] >>= fun e => before e (basicLines false rest)) = _
    rw [h]
    rfl
  plain {c} rest hplain hquote hslash := by
    -- a carriage return is not plain, so that no newline of two characters begins here
    have hreturn : c ≠ '\r' := by
      rintro rfl
      cases hplain
    rw [basicLines.eq_def]
    split <;> simp_all

/-! ## On one line -/

/-- **A text between double quotes is read back**, whatever it is. -/
theorem basicString_flatMap (t rest : Text) :
    basicString (t.flatMap basicChar ++ '"' :: rest) = some (t, rest) := by
  induction t with
  | nil => rfl
  | cons c t ih =>
    rw [List.flatMap_cons, List.append_assoc, takesEscapes_basicString.basicChar, ih]
    rfl

/-- **A text between single quotes is read back** if it fits there. -/
theorem literalString_append {t : Text} (h : StringStyle.literal.fits t = true) (rest : Text) :
    literalString (t ++ '\'' :: rest) = some (t, rest) := by
  induction t with
  | nil => rfl
  | cons c t ih =>
    simp only [StringStyle.fits, List.any_cons, Bool.not_eq_true', Bool.or_eq_false_iff,
      decide_eq_false_iff_not] at h ih
    obtain ⟨⟨⟨hneeds, hquote⟩, hline⟩, hrest⟩ := h
    have hplain := isPlain_of_not_needsEscape hneeds hline
    rw [List.cons_append, literalString.eq_def]
    simp only [hplain, if_true, ih hrest]
    rfl

/-! ## On several lines -/

variable {quote : Char} {rest : Text}

/-- Up to two quotes before the closing ones belong to the text. -/
theorem closing_replicate (hrest : rest.head? ≠ some quote) {k : Nat} (hk : k ≤ 2) :
    closing quote (List.replicate k quote ++ rest) = (List.replicate k quote, rest) := by
  have hnone : (rest.take (2 - k)).takeWhile (· = quote) = [] := by
    cases rest with
    | nil => simp
    | cons c rest =>
      have hc : c ≠ quote := by simpa using hrest
      cases 2 - k with
      | zero => rfl
      | succ j => simp [hc]
  have hmore : ((List.replicate k quote ++ rest).take 2).takeWhile (· = quote) =
      List.replicate k quote := by
    rw [List.take_append, List.take_of_length_le (by simpa using hk), List.length_replicate,
      List.takeWhile_append_of_pos (by simp), hnone, List.append_nil]
  simp only [closing, hmore, List.length_replicate]
  rw [List.drop_append_of_le_length (by simp), List.drop_of_length_le (by simp), List.nil_append]

/-- A text that begins with two of a character. -/
def Doubled (quote : Char) (t : Text) : Prop := ∃ rest, t = quote :: quote :: rest

/-- A quote is taken for what it is unless two more follow it. -/
theorem basicLines_quote {t : Text} (h : ¬Doubled '"' t) :
    basicLines false ('"' :: t) = before '"' (basicLines false t) := by
  rw [basicLines.eq_def]
  split
  case h_2 rest heq => exact absurd ⟨rest, (List.cons.inj heq).2⟩ h
  case h_8 c rest _ _ _ _ heq =>
    obtain ⟨rfl, rfl⟩ := List.cons.inj heq
    rfl
  all_goals simp_all

/-- A text that begins with something other than a quote has no two of them there. -/
theorem not_doubled {t : Text} (h : t.head? ≠ some quote) : ¬Doubled quote t := by
  rintro ⟨rest, rfl⟩
  exact h rfl

/-- After two quotes, or before anything but a quote, no quote is written as it is. -/
theorem head?_basicLinesText {run : Nat} {c : Char} (h : c = '"' → run = 2) (t rest : Text) :
    (basicLinesText run (c :: t) ++ rest).head? ≠ some '"' := by
  rw [basicLinesText]
  by_cases hquote : c = '"'
  · rw [if_pos hquote, if_pos (h hquote), List.append_assoc, List.head?_append, head?_escaped]
    simp
  · rw [if_neg hquote]
    split
    · simpa using hquote
    · rw [List.append_assoc]
      exact head?_basicChar (.inl rfl) c _

/-- **A text between three double quotes is read back**, whatever it is. What counts is how many
quotes stand just before it: a third one in a row is escaped. -/
theorem basicLines_basicLinesText (hrest : rest.head? ≠ some '"') (t : Text) {run : Nat}
    (hrun : run ≤ 2) : basicLines false (basicLinesText run t ++ '"' :: '"' :: '"' :: rest) =
      some (t, rest) := by
  -- quotes up to the end of the text stand right before the closing ones
  have hclosing {k : Nat} (hk : k ≤ 2) :
      basicLines false ('"' :: '"' :: '"' :: (List.replicate k '"' ++ rest)) =
        some (List.replicate k '"', rest) :=
    congrArg some (closing_replicate hrest hk)
  induction t generalizing run with
  | nil => exact hclosing (Nat.zero_le 2)
  | cons c t ih =>
    by_cases hquote : c = '"'
    · subst hquote
      by_cases hthird : run = 2
      · rw [basicLinesText, if_pos rfl, if_pos hthird, List.append_assoc,
          takesEscapes_basicLines.escaped (by decide), ih (Nat.zero_le 2)]
        rfl
      · have hnext : run + 1 ≤ 2 := by omega
        rw [basicLinesText, if_pos rfl, if_neg hthird, List.cons_append]
        -- the quote is read by itself if no two more follow
        have hplain (h : ¬Doubled '"' (basicLinesText (run + 1) t ++ '"' :: '"' :: '"' :: rest)) :
            basicLines false ('"' :: (basicLinesText (run + 1) t ++ '"' :: '"' :: '"' :: rest)) =
              some ('"' :: t, rest) := by
          rw [basicLines_quote h, ih hnext]
          rfl
        cases t with
        | nil => exact hclosing (show 1 ≤ 2 by decide)
        | cons d t =>
          by_cases hsecond : d = '"' → run + 1 = 2
          · exact hplain (not_doubled (head?_basicLinesText hsecond t _))
          · obtain ⟨rfl, hne⟩ := Classical.not_imp.1 hsecond
            obtain rfl : run = 0 := by omega
            cases t with
            | nil => exact hclosing (Nat.le_refl 2)
            | cons e t =>
              refine hplain ?_
              rintro ⟨later, heq⟩
              have hhead : (basicLinesText 2 (e :: t) ++ '"' :: '"' :: '"' :: rest).head? =
                  some '"' := congrArg List.head? (List.cons.inj heq).2
              exact head?_basicLinesText (fun _ => rfl) t _ hhead
    · by_cases hline : c = '\n'
      · subst hline
        have hstep := ih (Nat.zero_le 2)
        show basicLines false ('\n' :: (basicLinesText 0 t ++ _)) = _
        show before '\n' (basicLines false (basicLinesText 0 t ++ _)) = _
        rw [hstep]
        rfl
      · rw [basicLinesText, if_neg hquote, if_neg hline, List.append_assoc,
          takesEscapes_basicLines.basicChar, ih (Nat.zero_le 2)]
        rfl

/-- A single quote, too, is taken for what it is unless two more follow it. -/
theorem literalLines_quote {t : Text} (h : ¬Doubled '\'' t) :
    literalLines ('\'' :: t) = before '\'' (literalLines t) := by
  rw [literalLines.eq_def]
  split
  case h_2 rest heq => exact absurd ⟨rest, (List.cons.inj heq).2⟩ h
  case h_5 c rest _ _ heq =>
    obtain ⟨rfl, rfl⟩ := List.cons.inj heq
    rfl
  all_goals simp_all

/-- A run that has begun is part of the longest one. -/
theorem le_longestRun (c : Char) (run : Nat) (t : Text) : run ≤ longestRun c run t := by
  induction t generalizing run with
  | nil => exact Nat.le_refl run
  | cons d t ih =>
    rw [longestRun]
    split
    · exact Nat.le_trans (Nat.le_succ run) (ih (run + 1))
    · exact Nat.le_max_left run _

/-- **A text between three single quotes is read back** if it has no three of them in a row and
nothing that needs an escape. -/
theorem literalLines_append (hrest : rest.head? ≠ some '\'') (t : Text) {run : Nat}
    (hplain : t.any needsEscape = false) (hrun : longestRun '\'' run t < 3) :
    literalLines (t ++ '\'' :: '\'' :: '\'' :: rest) = some (t, rest) := by
  have hclosing {k : Nat} (hk : k ≤ 2) :
      literalLines ('\'' :: '\'' :: '\'' :: (List.replicate k '\'' ++ rest)) =
        some (List.replicate k '\'', rest) :=
    congrArg some (closing_replicate hrest hk)
  induction t generalizing run with
  | nil => exact hclosing (Nat.zero_le 2)
  | cons c t ih =>
    rw [List.any_cons, Bool.or_eq_false_iff] at hplain
    obtain ⟨hneeds, hplain⟩ := hplain
    rw [longestRun] at hrun
    rw [List.cons_append]
    by_cases hquote : c = '\''
    · subst hquote
      rw [if_pos rfl] at hrun
      by_cases hdoubled : Doubled '\'' (t ++ '\'' :: '\'' :: '\'' :: rest)
      · -- no third quote can come before the closing ones
        obtain ⟨later, heq⟩ := hdoubled
        cases t with
        | nil => exact hclosing (show 1 ≤ 2 by decide)
        | cons d t =>
          obtain ⟨hd, htail⟩ := List.cons.inj heq
          subst hd
          cases t with
          | nil => exact hclosing (Nat.le_refl 2)
          | cons e t =>
            obtain ⟨he, -⟩ := List.cons.inj htail
            subst he
            have hthree : run + 1 + 1 + 1 ≤ longestRun '\'' (run + 1) ('\'' :: '\'' :: t) :=
              le_longestRun '\'' _ t
            omega
      · rw [literalLines_quote hdoubled, ih hplain hrun]
        rfl
    · rw [if_neg hquote, Nat.max_lt] at hrun
      by_cases hline : c = '\n'
      · subst hline
        show before '\n' (literalLines (t ++ _)) = _
        rw [ih hplain hrun.2]
        rfl
      · have hself := isPlain_of_not_needsEscape hneeds hline
        have hreturn : c ≠ '\r' := by
          rintro rfl
          cases hneeds
        have hstep : literalLines (c :: (t ++ '\'' :: '\'' :: '\'' :: rest)) =
            before c (literalLines (t ++ '\'' :: '\'' :: '\'' :: rest)) := by
          rw [literalLines.eq_def]
          split <;> simp_all
        rw [hstep, ih hplain hrun.2]
        rfl

/-! ## All strings -/

/-- What is known of a text that is written in one of the ways. -/
theorem fits_of_ofText {t : Text} {style : StringStyle} (h : StringStyle.ofText t = style)
    (hstyle : style = .literal ∨ style = .literalLines) : style.fits t = true := by
  unfold StringStyle.ofText at h
  split at h
  · next found hfound =>
    subst h
    exact List.find?_some hfound
  · split at h <;> subst h <;> simp at hstyle

/-- The newline after the opening quotes is left out again. -/
theorem dropNewline_leadingNewline {t body : Text} (h : '\n' ∉ t → newline? body = none) :
    dropNewline (leadingNewline t ++ body) = body := by
  unfold leadingNewline
  by_cases hline : '\n' ∈ t
  · rw [if_pos (by simpa using hline)]
    rfl
  · rw [if_neg (by simpa using hline), List.nil_append, dropNewline, h hline]
    rfl

/-- A text that begins with neither half of a newline does not begin with one. -/
theorem newline?_eq_none {t : Text} (h : t.head? ≠ some '\n') (hreturn : t.head? ≠ some '\r') :
    newline? t = none := by
  unfold newline?
  split <;> simp_all

/-- A string on one line is read as such if its text does not begin with a quote. -/
theorem anyString_basic {t : Text} (h : ¬Doubled '"' t) : anyString ('"' :: t) = basicString t := by
  rw [anyString.eq_def]
  split
  case h_1 rest heq => exact absurd ⟨rest, (List.cons.inj heq).2⟩ h
  all_goals simp_all

theorem anyString_literal {t : Text} (h : ¬Doubled '\'' t) :
    anyString ('\'' :: t) = literalString t := by
  rw [anyString.eq_def]
  split
  case h_3 rest heq => exact absurd ⟨rest, (List.cons.inj heq).2⟩ h
  all_goals simp_all

/-- A text that follows three opening quotes and has no newline does not seem to begin with one. -/
theorem newline?_basicLinesText {t : Text} (h : '\n' ∉ t) :
    newline? (basicLinesText 0 t ++ '"' :: '"' :: '"' :: rest) = none := by
  cases t with
  | nil => rfl
  | cons c t =>
    have hline : c ≠ '\n' := fun heq => h (by simp [heq])
    rw [basicLinesText]
    by_cases hquote : c = '"'
    · subst hquote
      rfl
    · rw [if_neg hquote, if_neg hline, List.append_assoc]
      exact newline?_eq_none (head?_basicChar (.inr (.inr rfl)) c _)
        (head?_basicChar (.inr (.inl rfl)) c _)

/-- **Every text is read back from what is written for it**, whatever follows that is no quote. -/
theorem anyString_writeString (t : Text) (hbasic : rest.head? ≠ some '"')
    (hliteral : rest.head? ≠ some '\'') : anyString (writeString t ++ rest) = some (t, rest) := by
  cases hstyle : StringStyle.ofText t with
  | basic =>
    have hwritten : writeString t ++ rest = '"' :: (t.flatMap basicChar ++ '"' :: rest) := by
      simp [writeString, hstyle]
    have hsingle : ¬Doubled '"' (t.flatMap basicChar ++ '"' :: rest) := by
      cases t with
      | nil =>
        rintro ⟨later, heq⟩
        exact hbasic (congrArg List.head? (List.cons.inj heq).2)
      | cons c t =>
        rw [List.flatMap_cons, List.append_assoc]
        exact not_doubled (head?_basicChar (.inl rfl) c _)
    rw [hwritten, anyString_basic hsingle, basicString_flatMap]
  | literal =>
    have hfits := fits_of_ofText hstyle (.inl rfl)
    have hwritten : writeString t ++ rest = '\'' :: (t ++ '\'' :: rest) := by
      simp [writeString, hstyle]
    have hsingle : ¬Doubled '\'' (t ++ '\'' :: rest) := by
      cases t with
      | nil =>
        rintro ⟨later, heq⟩
        exact hliteral (congrArg List.head? (List.cons.inj heq).2)
      | cons c t =>
        have hquote : c ≠ '\'' := by
          rintro rfl
          simp [StringStyle.fits] at hfits
        exact not_doubled (by simpa using hquote)
    rw [hwritten, anyString_literal hsingle, literalString_append hfits]
  | basicLines =>
    have hwritten : writeString t ++ rest = '"' :: '"' :: '"' ::
        (leadingNewline t ++ (basicLinesText 0 t ++ '"' :: '"' :: '"' :: rest)) := by
      simp [writeString, hstyle]
    rw [hwritten]
    show basicLines false (dropNewline _) = _
    rw [dropNewline_leadingNewline newline?_basicLinesText,
      basicLines_basicLinesText hbasic t (Nat.zero_le 2)]
  | literalLines =>
    have hfits := fits_of_ofText hstyle (.inr rfl)
    have hwritten : writeString t ++ rest = '\'' :: '\'' :: '\'' ::
        (leadingNewline t ++ (t ++ '\'' :: '\'' :: '\'' :: rest)) := by
      simp [writeString, hstyle]
    simp only [StringStyle.fits, Bool.and_eq_true, Bool.not_eq_true', decide_eq_true_eq] at hfits
    obtain ⟨hplain, hruns⟩ := hfits
    have hline (h : '\n' ∉ t) : newline? (t ++ '\'' :: '\'' :: '\'' :: rest) = none := by
      cases t with
      | nil => rfl
      | cons c t =>
        have hnewline : c ≠ '\n' := fun heq => h (by simp [heq])
        have hreturn : c ≠ '\r' := by
          rintro rfl
          cases hplain
        exact newline?_eq_none (by simpa using hnewline) (by simpa using hreturn)
    rw [hwritten]
    show literalLines (dropNewline _) = _
    rw [dropNewline_leadingNewline hline, literalLines_append hliteral t hplain hruns]

end FileShell.Toml
