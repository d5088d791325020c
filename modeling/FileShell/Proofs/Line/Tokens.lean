import FileShell.Line.Stages
import FileShell.Proofs.Outcome

/-! # The tokens of a line

A line read once from left to right falls into tokens: words, redirection operators and bars. One
quote state runs through the whole line, and one word is collected at a time.

* **`tokensOf line`** — the tokens, or the quote that the line leaves open.
* **`tokensOf_cut_bar`**, **`tokensOf_cut_operator`** — the tokens of a line that is cut at a bar or
  at an operator are those of the two sides with the cut between them.
* **`tokensFrom_eq_wordPieces`** — where neither stands outside quotes, the tokens are the words. -/

namespace FileShell

/-- **A token of a line.** -/
inductive Token
  /-- A word, quotes dropped. -/
  | word (text : Text)
  /-- An operator of a redirection. -/
  | operator (mode : WriteMode)
  /-- The bar between two stages. -/
  | bar
deriving DecidableEq, Repr

namespace Token

/-- The word that was collected, in front of the tokens that follow it. An empty word is none. -/
def afterWord (word : Text) (tokens : List Token) : List Token :=
  if word.isEmpty then tokens else .word word :: tokens

@[simp] theorem afterWord_nil (tokens : List Token) : afterWord [] tokens = tokens := rfl

@[simp] theorem afterWord_append (word : Text) (tokens more : List Token) :
    afterWord word tokens ++ more = afterWord word (tokens ++ more) := by
  unfold afterWord
  split <;> rfl

end Token

/-- **The tokens of the rest of a line**, after a quote state and the part of a word that has been
collected. Two signs in a row are one operator. -/
def tokensFrom : Option Char → Text → Text → Except Char (List Token)
  | some q, _, [] => .error q
  | some q, word, c :: rest =>
    if c = q then tokensFrom none word rest else tokensFrom (some q) (word ++ [c]) rest
  | none, word, [] => .ok (Token.afterWord word [])
  | none, word, '>' :: '>' :: rest =>
    (Token.afterWord word <| .operator .append :: ·) <$> tokensFrom none [] rest
  | none, word, '>' :: rest =>
    (Token.afterWord word <| .operator .truncate :: ·) <$> tokensFrom none [] rest
  | none, word, '|' :: rest => (Token.afterWord word <| .bar :: ·) <$> tokensFrom none [] rest
  | none, word, c :: rest =>
    if isQuote c then tokensFrom (some c) word rest
    else if isBlank c then Token.afterWord word <$> tokensFrom none [] rest
    else tokensFrom none (word ++ [c]) rest

/-- **The tokens of a line**, or the quote that it leaves open. -/
def tokensOf (line : Text) : Except Char (List Token) := tokensFrom none [] line

/-! ## Equations -/

@[simp] theorem tokensFrom_some_nil (q : Char) (word : Text) :
    tokensFrom (some q) word [] = .error q := by rw [tokensFrom]

@[simp] theorem tokensFrom_some_cons (q : Char) (word : Text) (c : Char) (rest : Text) :
    tokensFrom (some q) word (c :: rest) =
      if c = q then tokensFrom none word rest else tokensFrom (some q) (word ++ [c]) rest := by
  rw [tokensFrom]

@[simp] theorem tokensFrom_none_nil (word : Text) :
    tokensFrom none word [] = .ok (Token.afterWord word []) := by rw [tokensFrom]

@[simp] theorem tokensFrom_append_sign (word rest : Text) :
    tokensFrom none word ('>' :: '>' :: rest) =
      (Token.afterWord word <| .operator .append :: ·) <$> tokensFrom none [] rest := by
  rw [tokensFrom]

/-- One sign that no other follows is an operator of its own. -/
theorem tokensFrom_truncate_sign (word : Text) {rest : Text} (h : rest.head? ≠ some '>') :
    tokensFrom none word ('>' :: rest) =
      (Token.afterWord word <| .operator .truncate :: ·) <$> tokensFrom none [] rest := by
  rw [tokensFrom]
  rintro r rfl
  exact h rfl

@[simp] theorem tokensFrom_bar (word rest : Text) :
    tokensFrom none word ('|' :: rest) =
      (Token.afterWord word <| .bar :: ·) <$> tokensFrom none [] rest := by
  rw [tokensFrom]

/-- Any other character opens a quote, ends a word or belongs to one. -/
theorem tokensFrom_none_cons {c : Char} (hs : c ≠ '>') (hb : c ≠ '|') (word rest : Text) :
    tokensFrom none word (c :: rest) =
      if isQuote c then tokensFrom (some c) word rest
      else if isBlank c then Token.afterWord word <$> tokensFrom none [] rest
      else tokensFrom none (word ++ [c]) rest := by
  rw [tokensFrom]
  · exact fun _ h => absurd h hs
  · exact hs
  · exact hb

/-! ## Quote states -/

/-- **The quote state at the end of a text.** -/
def quoteStateAfter (open? : Option Char) (t : Text) : Option Char := t.foldl quoteAfter open?

@[simp] theorem quoteStateAfter_nil (open? : Option Char) : quoteStateAfter open? [] = open? := rfl

@[simp] theorem quoteStateAfter_cons (open? : Option Char) (c : Char) (t : Text) :
    quoteStateAfter open? (c :: t) = quoteStateAfter (quoteAfter open? c) t := rfl

/-- **None of the signs stands outside quotes** in a text that is read from a quote state on. -/
def AllQuoted (signs : List Char) : Option Char → Text → Prop
  | _, [] => True
  | open?, c :: rest => (open? = none → c ∉ signs) ∧ AllQuoted signs (quoteAfter open? c) rest

@[simp] theorem allQuoted_nil (signs : List Char) (open? : Option Char) :
    AllQuoted signs open? [] := trivial

@[simp] theorem allQuoted_cons {signs : List Char} {open? : Option Char} {c : Char} {rest : Text} :
    AllQuoted signs open? (c :: rest) ↔
      (open? = none → c ∉ signs) ∧ AllQuoted signs (quoteAfter open? c) rest := Iff.rfl

/-- Both sides of a cut keep a sign quoted if the whole text does. -/
theorem allQuoted_append {signs : List Char} {open? : Option Char} {s t : Text} :
    AllQuoted signs open? (s ++ t) ↔
      AllQuoted signs open? s ∧ AllQuoted signs (quoteStateAfter open? s) t := by
  induction s generalizing open? with
  | nil => simp
  | cons c s ih => simp [ih, and_assoc]

/-- Two lists of signs at once. -/
theorem AllQuoted.both {signs more : List Char} {open? : Option Char} {t : Text}
    (h : AllQuoted signs open? t) (h' : AllQuoted more open? t) :
    AllQuoted (signs ++ more) open? t := by
  induction t generalizing open? with
  | nil => trivial
  | cons c t ih =>
    obtain ⟨hc, ht⟩ := h
    obtain ⟨hc', ht'⟩ := h'
    exact ⟨fun hn => by simp [hc hn, hc' hn], ih ht ht'⟩

/-! ## Cuts -/

/-- A text that no cons with the sign fits begins with something else. -/
theorem head?_ne_of_forall {sign : Char} {t : Text} (h : ∀ rest, t = sign :: rest → False) :
    t.head? ≠ some sign := by
  cases t with
  | nil => simp
  | cons c t => exact fun hc => h t (by simpa using hc)

/-- A text put together from two begins like one of them. -/
theorem head?_append_ne {sign : Char} {s t : Text} (hs : s.head? ≠ some sign)
    (ht : t.head? ≠ some sign) : (s ++ t).head? ≠ some sign := by
  cases s with
  | nil => exact ht
  | cons c s => simpa using hs

/-- **A line cut at a sign** that is a token by itself. Where the sign begins like an operator, no
operator may stand before it, or the two might run together. -/
theorem tokensFrom_cut {open? : Option Char} {before sign rest : Text} {token : Token}
    (cut : ∀ word, tokensFrom none word (sign ++ rest) =
      (Token.afterWord word <| token :: ·) <$> tokensFrom none [] rest)
    (apart : (sign ++ rest).head? ≠ some '>' ∨ AllQuoted ['>'] open? before)
    (closed : quoteStateAfter open? before = none) (word : Text) :
    tokensFrom open? word (before ++ (sign ++ rest)) =
      tokensFrom open? word before >>= fun left =>
        (left ++ token :: ·) <$> tokensFrom none [] rest := by
  induction open?, word, before using tokensFrom.induct with
  | case1 q word => cases closed
  | case2 word q t ih =>
    -- the quote is closed
    simpa using ih (by simpa using apart) (by simpa using closed)
  | case3 q word c t hc ih =>
    -- any other character inside the quote
    simpa [hc] using ih (by simpa [hc] using apart) (by simpa [hc] using closed)
  | case4 word => simp [cut]
  | case5 word t ih =>
    -- an operator stands before the cut, so the sign there must not begin like one
    have apart' : (sign ++ rest).head? ≠ some '>' := by simpa using apart
    simp [ih (.inl apart') closed]
  | case6 word t ht ih =>
    -- the short operator stays short when the sign is put behind the text
    have apart' : (sign ++ rest).head? ≠ some '>' := by simpa using apart
    have ht₁ := head?_ne_of_forall ht
    have ht₂ := head?_append_ne ht₁ apart'
    simp [tokensFrom_truncate_sign word ht₁, tokensFrom_truncate_sign word ht₂,
      ih (.inl apart') closed]
  | case7 word t ih => simp [ih (apart.imp_right fun h => h.2) closed]
  | case8 word c t _ hs hb hq ih =>
    -- a quote is opened; the two cases that follow are a blank and a character of a word
    have apart' := apart.imp_right fun h => by simpa [hq] using h.2
    simpa [tokensFrom_none_cons hs hb, hq] using ih apart' (by simpa [hq] using closed)
  | case9 word c t _ hs hb hq hblank ih =>
    have apart' := apart.imp_right fun h => by simpa [hq] using h.2
    simp [tokensFrom_none_cons hs hb, hq, hblank, ih apart' (by simpa [hq] using closed)]
  | case10 word c t _ hs hb hq hblank ih =>
    have apart' := apart.imp_right fun h => by simpa [hq] using h.2
    simpa [tokensFrom_none_cons hs hb, hq, hblank] using ih apart' (by simpa [hq] using closed)

/-- **A line cut at a bar** outside quotes. -/
theorem tokensOf_cut_bar {before : Text} (closed : quoteStateAfter none before = none)
    (rest : Text) :
    tokensOf (before ++ '|' :: rest) =
      tokensOf before >>= fun left => (left ++ .bar :: ·) <$> tokensOf rest :=
  @tokensFrom_cut none before ['|'] rest .bar (fun word => tokensFrom_bar word rest)
    (.inl (by simp)) closed []

/-- **A line cut at its first operator** outside quotes. -/
theorem tokensOf_cut_operator {before : Text} (mode : WriteMode) {rest : Text}
    (longest : mode = .truncate → rest.head? ≠ some '>')
    (first : AllQuoted ['>'] none before) (closed : quoteStateAfter none before = none) :
    tokensOf (before ++ (mode.operator ++ rest)) =
      tokensOf before >>= fun left => (left ++ .operator mode :: ·) <$> tokensOf rest := by
  refine tokensFrom_cut (fun word => ?_) (.inr first) closed []
  cases mode with
  | truncate => exact tokensFrom_truncate_sign word (longest rfl)
  | append => exact tokensFrom_append_sign word rest

/-! ## Words and blanks -/

/-- The words among pieces of a text, as tokens. -/
def wordTokens (pieces : List Text) : List Token :=
  (pieces.filter fun piece => !piece.isEmpty).map .word

@[simp] theorem wordTokens_nil : wordTokens [] = [] := rfl

@[simp] theorem wordTokens_cons (piece : Text) (pieces : List Text) :
    wordTokens (piece :: pieces) = Token.afterWord piece (wordTokens pieces) := by
  cases piece <;> simp [wordTokens, Token.afterWord]

/-- Nothing put in front of the first piece changes nothing. -/
theorem modifyHead_nil_append (pieces : List Text) : pieces.modifyHead ([] ++ ·) = pieces := by
  cases pieces <;> rfl

/-- **Where bars and operators are quoted, the tokens are the words.** -/
theorem tokensFrom_eq_wordPieces {open? : Option Char} {t : Text}
    (quoted : AllQuoted ['|', '>'] open? t) (word : Text) :
    tokensFrom open? word t =
      (fun pieces => wordTokens (pieces.modifyHead (word ++ ·))) <$> wordPieces open? t := by
  induction open?, word, t using tokensFrom.induct with
  | case1 q word => simp [wordPieces]
  | case2 word q t ih => simpa [wordPieces] using ih (by simpa using quoted)
  | case3 q word c t hc ih =>
    have ih' := ih (by simpa [hc] using quoted)
    simp [wordPieces, hc, ih', Function.comp_def]
  | case4 word => simp [wordPieces]
  | case5 word t ih => simp at quoted
  | case6 word t ht ih => simp at quoted
  | case7 word t ih => simp at quoted
  | case8 word c t _ hs hb hq ih =>
    simpa [tokensFrom_none_cons hs hb, wordPieces, hq] using ih (by simpa [hq] using quoted.2)
  | case9 word c t _ hs hb hq hblank ih =>
    -- a blank ends the word: what follows is collected from nothing again
    have ih' := ih (by simpa [hq] using quoted.2)
    simp only [modifyHead_nil_append] at ih'
    simp [tokensFrom_none_cons hs hb, wordPieces, hq, hblank, ih']
  | case10 word c t _ hs hb hq hblank ih =>
    have ih' := ih (by simpa [hq] using quoted.2)
    simp [tokensFrom_none_cons hs hb, wordPieces, hq, hblank, ih', Function.comp_def]

/-- The tokens of a text without bars and operators outside quotes. -/
theorem tokensOf_eq_wordsOf {t : Text} (quoted : AllQuoted ['|', '>'] none t) :
    tokensOf t = List.map Token.word <$> wordsOf t := by
  rw [tokensOf, tokensFrom_eq_wordPieces quoted, wordsOf]
  simp only [modifyHead_nil_append, Functor.map_map]
  rfl

/-- A blank is no quote. -/
theorem not_isQuote_of_isBlank {c : Char} (h : isBlank c = true) : isQuote c = false := by
  cases hq : isQuote c with
  | false => rfl
  | true =>
    obtain rfl | rfl : c = '\'' ∨ c = '"' := by simpa [isQuote] using hq
    · exact absurd h (by decide)
    · exact absurd h (by decide)

/-- A blank outside quotes ends the word. -/
theorem tokensFrom_blank {c : Char} (h : isBlank c = true) (word rest : Text) :
    tokensFrom none word (c :: rest) = Token.afterWord word <$> tokensFrom none [] rest := by
  have hs : c ≠ '>' := by rintro rfl; exact absurd h (by decide)
  have hb : c ≠ '|' := by rintro rfl; exact absurd h (by decide)
  rw [tokensFrom_none_cons hs hb, if_neg (by simp [not_isQuote_of_isBlank h]), if_pos h]

/-- Nothing but blanks ends the word that was collected. -/
theorem tokensFrom_blanks (word : Text) {blanks : Text} (h : ∀ c ∈ blanks, isBlank c = true) :
    tokensFrom none word blanks = .ok (Token.afterWord word []) := by
  induction blanks generalizing word with
  | nil => rw [tokensFrom_none_nil]
  | cons c blanks ih =>
    rw [tokensFrom_blank (h c (by simp)), ih [] fun d hd => h d (by simp [hd])]
    rfl

/-- Nothing but blanks leaves a quote open. -/
theorem tokensFrom_some_blanks {q : Char} (hq : isQuote q = true) (word : Text) {blanks : Text}
    (h : ∀ c ∈ blanks, isBlank c = true) : tokensFrom (some q) word blanks = .error q := by
  induction blanks generalizing word with
  | nil => rw [tokensFrom_some_nil]
  | cons c blanks ih =>
    have hc : c ≠ q := by
      rintro rfl
      rw [not_isQuote_of_isBlank (h c (by simp))] at hq
      cases hq
    rw [tokensFrom_some_cons, if_neg hc, ih _ fun d hd => h d (by simp [hd])]

/-- Blanks after a text add no token, whether a quote is open there or not. -/
theorem tokensFrom_append_blanks {open? : Option Char} (hopen : ∀ q ∈ open?, isQuote q = true)
    (word t : Text) {blanks : Text} (h : ∀ c ∈ blanks, isBlank c = true) :
    tokensFrom open? word (t ++ blanks) = tokensFrom open? word t := by
  induction open?, word, t using tokensFrom.induct with
  | case1 q word => simpa using tokensFrom_some_blanks (hopen q rfl) word h
  | case2 word q t ih => simpa using ih (by simp)
  | case3 q word c t hc ih => simpa [hc] using ih hopen
  | case4 word => simpa using tokensFrom_blanks word h
  | case5 word t ih => simp [ih hopen]
  | case6 word t ht ih =>
    -- a blank does not make the operator a longer one
    have ht₁ := head?_ne_of_forall ht
    have ht₂ : (t ++ blanks).head? ≠ some '>' := by
      refine head?_append_ne ht₁ fun hb => ?_
      exact absurd (h '>' (List.mem_of_mem_head? hb)) (by decide)
    simp [tokensFrom_truncate_sign word ht₁, tokensFrom_truncate_sign word ht₂, ih hopen]
  | case7 word t ih => simp [ih hopen]
  | case8 word c t _ hs hb hq ih =>
    simpa [tokensFrom_none_cons hs hb, hq] using ih (by simpa using hq)
  | case9 word c t _ hs hb hq hblank ih => simp [tokensFrom_blank hblank, ih hopen]
  | case10 word c t _ hs hb hq hblank ih =>
    simpa [tokensFrom_none_cons hs hb, hq, hblank] using ih hopen

/-- Blanks before a line add no token. -/
theorem tokensOf_trimStart (t : Text) : tokensOf t.trimStart = tokensOf t := by
  induction t with
  | nil => rfl
  | cons c t ih =>
    rw [Text.trimStart, List.dropWhile_cons]
    split
    · next h =>
      have hc : tokensOf (c :: t) = tokensOf t := by
        rw [tokensOf, tokensFrom_blank h]
        exact id_map _
      exact ih.trans hc.symm
    · rfl

/-- A text is what is left of it without the blanks at its end, and these blanks. -/
theorem exists_trimEnd_append (t : Text) :
    ∃ blanks, t = t.trimEnd ++ blanks ∧ ∀ c ∈ blanks, isBlank c = true := by
  refine ⟨(t.reverse.takeWhile isBlank).reverse, ?_, fun c hc => ?_⟩
  · rw [Text.trimEnd, ← List.reverse_append, List.takeWhile_append_dropWhile, List.reverse_reverse]
  · exact List.all_eq_true.1 List.all_takeWhile c (List.mem_reverse.1 hc)

/-- **Blanks around a line add no token.** -/
theorem tokensOf_trim (t : Text) : tokensOf t.trim = tokensOf t := by
  obtain ⟨blanks, hsplit, hblanks⟩ := exists_trimEnd_append t.trimStart
  calc tokensOf t.trim
      = tokensOf (t.trimStart.trimEnd ++ blanks) :=
        (tokensFrom_append_blanks (by simp) [] _ hblanks).symm
    _ = tokensOf t.trimStart := by rw [← hsplit]
    _ = tokensOf t := tokensOf_trimStart t

end FileShell
