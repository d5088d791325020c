import FileShell.Proofs.Line.Tokens
import Mathlib.Data.List.Basic
import Mathlib.Data.List.TakeWhile

/-! # The grammar of a line

Reading a line goes through three scanners: one cuts at bars, one at operators, one at blanks, each
with a quote state of its own and on texts that were cut out and trimmed before. Together they
accept exactly the lines whose tokens, read off the whole line at once, have the form

    line := stage ('|' stage)*        stage := word+ (('>>' | '>') word)?

with every target a single path, and they read the same words and redirections off it.

* **`IsStage`**, **`IsLine`** — the grammar, as a relation between tokens and drafts.
* **`Draft.ofText_eq_ok_iff_isStage`** — one stage.
* **`reads_iff_isLine`** — a whole line. -/

namespace FileShell

/-! ## The two relations -/

/-- **The tokens of a stage** and what they say: words, and at the end perhaps an operator with one
word that names a single path. -/
inductive IsStage : List Token → Draft → Prop
  /-- Words alone. -/
  | plain (command : Text) (words : List Text) :
      IsStage (.word command :: words.map .word) ⟨command, words, none⟩
  /-- Words and a redirection. -/
  | redirected (command : Text) (words : List Text) (mode : WriteMode) {target : Text}
      (single : WordKind.ofWord? target = some .single) :
      IsStage (.word command :: words.map .word ++ [.operator mode, .word target])
        ⟨command, words, some ⟨mode, target⟩⟩

/-- **The tokens of a line** and what they say: stages with a bar between each two. -/
inductive IsLine : List Token → List Draft → Prop
  /-- The last stage. -/
  | last {tokens : List Token} {d : Draft} (stage : IsStage tokens d) : IsLine tokens [d]
  /-- A stage, a bar and the rest of the line. -/
  | more {tokens rest : List Token} {d : Draft} {ds : List Draft} (stage : IsStage tokens d)
      (line : IsLine rest ds) : IsLine (tokens ++ .bar :: rest) (d :: ds)

/-! ## Reading the relations backwards -/

/-- Two lists cut at the first element of a kind are cut at the same place. -/
theorem append_cons_inj_of_first {α : Type} (p : α → Prop) {l l' r r' : List α} {a a' : α}
    (hl : ∀ x ∈ l, ¬p x) (hl' : ∀ x ∈ l', ¬p x) (ha : p a) (ha' : p a')
    (h : l ++ a :: r = l' ++ a' :: r') : l = l' ∧ a = a' ∧ r = r' := by
  -- where one list ends before the other, its cut would be an element of that other
  induction l generalizing l' with
  | nil =>
    cases l' with
    | nil => simpa using h
    | cons b l' =>
      obtain ⟨rfl, -⟩ : a = b ∧ _ := by simpa using h
      exact absurd ha (hl' a (by simp))
  | cons b l ih =>
    cases l' with
    | nil =>
      obtain ⟨rfl, -⟩ : b = a' ∧ _ := by simpa using h
      exact absurd ha' (hl b (by simp))
    | cons b' l' =>
      obtain ⟨rfl, hrest⟩ : b = b' ∧ l ++ a :: r = l' ++ a' :: r' := by simpa using h
      have hl₁ : ∀ x ∈ l, ¬p x := fun x hx => hl x (by simp [hx])
      have hl₂ : ∀ x ∈ l', ¬p x := fun x hx => hl' x (by simp [hx])
      obtain ⟨rfl, rfl, rfl⟩ := ih hl₁ hl₂ hrest
      exact ⟨rfl, rfl, rfl⟩

/-- Whether a token is an operator or a bar. -/
def Token.isSign : Token → Bool
  | .word _ => false
  | .operator _ | .bar => true

@[simp] theorem Token.isSign_word (text : Text) : (Token.word text).isSign = false := rfl

@[simp] theorem Token.isSign_operator (mode : WriteMode) :
    (Token.operator mode).isSign = true := rfl

/-- The tokens of words are no signs. -/
theorem not_isSign_of_mem {words : List Text} {t : Token} (h : t ∈ words.map Token.word) :
    ¬t.isSign = true := by
  obtain ⟨w, -, rfl⟩ := List.mem_map.1 h
  simp

/-- The words of a list of tokens are determined by it. -/
theorem map_word_injective : Function.Injective (List.map Token.word) :=
  List.map_injective_iff.2 fun _ _ h => by simpa using h

/-- The tokens of words alone are a stage if there is a word. -/
theorem isStage_words_iff {words : List Text} {d : Draft} :
    IsStage (words.map .word) d ↔
      ∃ command rest, words = command :: rest ∧ d = ⟨command, rest, none⟩ := by
  constructor
  · intro h
    generalize ht : words.map Token.word = tokens at h
    cases h with
    | plain command rest =>
      rw [← List.map_cons] at ht
      exact ⟨command, rest, map_word_injective ht, rfl⟩
    | redirected command rest mode single =>
      have hm : Token.operator mode ∈ words.map Token.word := by simp [ht]
      exact absurd rfl (not_isSign_of_mem hm)
  · rintro ⟨command, rest, rfl, rfl⟩
    exact .plain command rest

/-- The tokens of words with an operator after them are a stage if there is a word before it and one
after it, which names a single path. -/
theorem isStage_operator_iff {words : List Text} {mode : WriteMode} {right : List Token}
    {d : Draft} :
    IsStage (words.map .word ++ .operator mode :: right) d ↔
      ∃ command rest target, words = command :: rest ∧ right = [.word target] ∧
        WordKind.ofWord? target = some .single ∧ d = ⟨command, rest, some ⟨mode, target⟩⟩ := by
  constructor
  · intro h
    generalize ht : words.map Token.word ++ .operator mode :: right = tokens at h
    cases h with
    | plain command rest =>
      have hm : Token.operator mode ∈ (command :: rest).map Token.word := by
        rw [List.map_cons, ← ht]
        simp
      exact absurd rfl (not_isSign_of_mem hm)
    | @redirected command rest mode' target single =>
      rw [← List.map_cons] at ht
      -- the operator is the first sign on both sides
      obtain ⟨hw, hmode, hr⟩ := append_cons_inj_of_first (Token.isSign · = true)
        (fun _ hx => not_isSign_of_mem hx) (fun _ hx => not_isSign_of_mem hx) rfl rfl ht
      obtain rfl : mode = mode' := by simpa using hmode
      exact ⟨command, rest, target, map_word_injective hw, hr, single, rfl⟩
  · rintro ⟨command, rest, target, rfl, rfl, single, rfl⟩
    exact .redirected command rest mode single

/-- The tokens of a stage hold no bar. -/
theorem bar_not_mem_of_isStage {tokens : List Token} {d : Draft} (h : IsStage tokens d) :
    Token.bar ∉ tokens := by
  cases h <;> simp

/-- Tokens without a bar are a line if they are a stage. -/
theorem isLine_iff_of_bar_not_mem {tokens : List Token} (h : Token.bar ∉ tokens)
    {drafts : List Draft} : IsLine tokens drafts ↔ ∃ d, drafts = [d] ∧ IsStage tokens d := by
  constructor
  · intro hline
    cases hline with
    | last stage => exact ⟨_, rfl, stage⟩
    | more stage line => simp at h
  · rintro ⟨d, rfl, stage⟩
    exact .last stage

/-- Tokens cut at their first bar are a line if the first part is a stage and the rest a line. -/
theorem isLine_bar_iff {left right : List Token} (h : Token.bar ∉ left) {drafts : List Draft} :
    IsLine (left ++ .bar :: right) drafts ↔
      ∃ d ds, drafts = d :: ds ∧ IsStage left d ∧ IsLine right ds := by
  constructor
  · intro hline
    generalize ht : left ++ .bar :: right = tokens at hline
    cases hline with
    | last stage => exact absurd (by simp [← ht]) (bar_not_mem_of_isStage stage)
    | @more tokens' rest d ds stage line =>
      obtain ⟨rfl, -, rfl⟩ := append_cons_inj_of_first (· = Token.bar)
        (fun x hx hb => h (hb ▸ hx))
        (fun x hx hb => bar_not_mem_of_isStage stage (hb ▸ hx)) rfl rfl ht
      exact ⟨d, ds, rfl, stage, line⟩
  · rintro ⟨d, ds, rfl, stage, line⟩
    exact .more stage line

/-! ## What the scanners cut -/

/-- **A text is cut at its first bar** outside quotes, if there is one. -/
theorem cutAtBars_cases (open? : Option Char) (t : Text) :
    (AllQuoted ['|'] open? t ∧ cutAtBars true open? t = [t]) ∨
      ∃ before rest, t = before ++ '|' :: rest ∧ AllQuoted ['|'] open? before ∧
        quoteStateAfter open? before = none ∧
        cutAtBars true open? t = before :: cutAtBars true none rest := by
  induction t generalizing open? with
  | nil => exact .inl ⟨trivial, rfl⟩
  | cons c t ih =>
    -- any character but a bar outside quotes goes to the first part
    by_cases hbar : c = '|' ∧ open? = none
    · obtain ⟨rfl, rfl⟩ := hbar
      exact .inr ⟨[], t, rfl, trivial, rfl, by simp [cutAtBars]⟩
    · have hc : open? = none → c ∉ ['|'] := fun hn => by simpa using fun hc => hbar ⟨hc, hn⟩
      rcases ih (quoteAfter open? c) with ⟨hq, hcut⟩ | ⟨before, rest, rfl, hq, hclosed, hcut⟩
      · exact .inl ⟨⟨hc, hq⟩, by simp [cutAtBars, hbar, hcut]⟩
      · exact .inr ⟨c :: before, rest, rfl, ⟨hc, hq⟩, hclosed, by simp [cutAtBars, hbar, hcut]⟩

/-- **A text is cut at its first operator** outside quotes, if there is one, and then at the rest. -/
theorem cutAtOperators_cases (open? : Option Char) (t : Text) :
    (AllQuoted ['>'] open? t ∧ cutAtOperators open? t = (t, [])) ∨
      ∃ before mode rest, t = before ++ (WriteMode.operator mode ++ rest) ∧
        AllQuoted ['>'] open? before ∧ quoteStateAfter open? before = none ∧
        (mode = .truncate → rest.head? ≠ some '>') ∧
        cutAtOperators open? t =
          (before, (mode, (cutAtOperators none rest).1) :: (cutAtOperators none rest).2) := by
  induction open?, t using cutAtOperators.induct with
  | case1 open? => exact .inl ⟨trivial, by rw [cutAtOperators]⟩
  | case2 t text cuts hcut ih =>
    exact .inr ⟨[], .append, t, rfl, trivial, rfl, nofun, by rw [cutAtOperators]⟩
  | case3 t ht text cuts hcut ih =>
    refine .inr ⟨[], .truncate, t, rfl, trivial, rfl, fun _ => head?_ne_of_forall ht, ?_⟩
    rw [cutAtOperators]
    exact ht
  | case4 open? c t h₂ h₁ text cuts hcut ih =>
    -- no operator begins here
    have hc : open? = none → c ∉ ['>'] := fun hn => by simpa using h₁ hn
    have heq : cutAtOperators open? (c :: t) = (c :: (cutAtOperators (quoteAfter open? c) t).1,
        (cutAtOperators (quoteAfter open? c) t).2) := by
      rw [cutAtOperators]
      · exact h₂
      · exact h₁
    rcases ih with ⟨hq, ih⟩ | ⟨before, mode, rest, rfl, hq, hclosed, hlong, ih⟩
    · exact .inl ⟨⟨hc, hq⟩, by rw [heq, ih]⟩
    · exact .inr ⟨c :: before, mode, rest, rfl, ⟨hc, hq⟩, hclosed, hlong, by rw [heq, ih]⟩

/-- A word that was collected adds no bar. -/
@[simp] theorem bar_mem_afterWord {word : Text} {tokens : List Token} :
    Token.bar ∈ Token.afterWord word tokens ↔ Token.bar ∈ tokens := by
  unfold Token.afterWord
  split <;> simp

/-- The tokens of a text whose bars are all quoted hold no bar. -/
theorem bar_not_mem_tokensFrom {open? : Option Char} {word t : Text}
    (quoted : AllQuoted ['|'] open? t) {tokens : List Token}
    (h : tokensFrom open? word t = .ok tokens) : Token.bar ∉ tokens := by
  -- only a bar outside quotes adds one (`case7`), and that is excluded
  induction open?, word, t using tokensFrom.induct generalizing tokens with
  | case1 q word => simp at h
  | case2 word q t ih => exact ih (by simpa using quoted) (by simpa using h)
  | case3 q word c t hc ih => exact ih (by simpa [hc] using quoted) (by simpa [hc] using h)
  | case4 word =>
    obtain rfl : Token.afterWord word [] = tokens := by simpa using h
    simp
  | case5 word t ih =>
    rw [tokensFrom_append_sign] at h
    obtain ⟨later, hlater, rfl⟩ := Outcome.map_eq_ok.1 h
    simpa using ih quoted.2.2 hlater
  | case6 word t ht ih =>
    rw [tokensFrom_truncate_sign word (head?_ne_of_forall ht)] at h
    obtain ⟨later, hlater, rfl⟩ := Outcome.map_eq_ok.1 h
    simpa using ih quoted.2 hlater
  | case7 word t ih => simp at quoted
  | case8 word c t _ hs hb hq ih =>
    exact ih (by simpa [hq] using quoted.2) (by simpa [tokensFrom_none_cons hs hb, hq] using h)
  | case9 word c t _ hs hb hq hblank ih =>
    rw [tokensFrom_blank hblank] at h
    obtain ⟨later, hlater, rfl⟩ := Outcome.map_eq_ok.1 h
    simpa using ih (by simpa [hq] using quoted.2) hlater
  | case10 word c t _ hs hb hq hblank ih =>
    exact ih (by simpa [hq] using quoted.2)
      (by simpa [tokensFrom_none_cons hs hb, hq, hblank] using h)

/-! ## One stage -/

/-- A redirection is read off one word that names a single path. -/
theorem readRedirection_eq_ok {mode : WriteMode} {text : Text} {r : Redirection} :
    readRedirection mode text = .ok r ↔
      ∃ target, wordsOf text = .ok [target] ∧ WordKind.ofWord? target = some .single ∧
        r = ⟨mode, target⟩ := by
  simp only [readRedirection, lineWords, Outcome.bind_eq_ok, Outcome.mapError_eq_ok_iff]
  constructor
  · rintro ⟨words, hwords, h⟩
    -- no word and more than one are refused
    rcases words with _ | ⟨target, _ | ⟨_, _⟩⟩
    · cases h
    · by_cases single : WordKind.ofWord? target = some .single
      · exact ⟨target, hwords, single, by simpa [single, eq_comm] using h⟩
      · simp [single] at h
    · cases h
  · rintro ⟨target, hwords, single, rfl⟩
    exact ⟨[target], hwords, by simp [single]⟩

/-- **A draft is read** if what stands before the first operator has a word and the operators make
up at most one redirection. -/
theorem ofText_eq_ok {text : Text} {d : Draft} :
    Draft.ofText text = .ok d ↔
      ∃ redirection command words,
        redirectionOfCuts (cutAtOperators none text).2 = .ok redirection ∧
        wordsOf (cutAtOperators none text).1 = .ok (command :: words) ∧
        d = ⟨command, words, redirection⟩ := by
  simp only [Draft.ofText, lineWords, Outcome.bind_eq_ok, Outcome.mapError_eq_ok_iff]
  constructor
  · rintro ⟨redirection, hr, words, hwords, h⟩
    rcases words with _ | ⟨command, words⟩
    · cases h
    · exact ⟨redirection, command, words, hr, hwords, by simpa [eq_comm] using h⟩
  · rintro ⟨redirection, command, words, hr, hwords, rfl⟩
    exact ⟨redirection, hr, command :: words, hwords, rfl⟩

/-- What stands after an operator keeps its bars quoted. -/
theorem allQuoted_operator {before : Text} {mode : WriteMode} {rest : Text}
    (closed : quoteStateAfter none before = none)
    (quoted : AllQuoted ['|'] none (before ++ (mode.operator ++ rest))) :
    AllQuoted ['|'] none before ∧ AllQuoted ['|'] none rest := by
  rw [allQuoted_append, closed, allQuoted_append] at quoted
  refine ⟨quoted.1, ?_⟩
  cases mode with
  | truncate => exact quoted.2.2
  | append => exact quoted.2.2

/-- A stage without operators is read if it has a word. -/
theorem ofText_words_iff {text : Text} (quoted : AllQuoted ['|', '>'] none text)
    (hcut : cutAtOperators none text = (text, [])) {d : Draft} :
    Draft.ofText text = .ok d ↔ ∃ tokens, tokensOf text = .ok tokens ∧ IsStage tokens d := by
  rw [ofText_eq_ok, hcut, tokensOf_eq_wordsOf quoted]
  constructor
  · rintro ⟨redirection, command, words, hr, hwords, rfl⟩
    obtain rfl : none = redirection := by simpa [redirectionOfCuts] using hr
    exact ⟨_, Outcome.map_eq_ok.2 ⟨_, hwords, rfl⟩, .plain command words⟩
  · rintro ⟨tokens, htokens, stage⟩
    obtain ⟨words, hwords, rfl⟩ := Outcome.map_eq_ok.1 htokens
    obtain ⟨command, rest, rfl, rfl⟩ := isStage_words_iff.1 stage
    exact ⟨none, command, rest, rfl, hwords, rfl⟩

/-- The tokens of two sides with an operator between them are a stage if there are words on the left
and one word on the right that names a single path. -/
theorem isStage_sides_iff {left right : Text} (quoted : AllQuoted ['|', '>'] none left)
    {mode : WriteMode} {d : Draft} :
    (∃ tokens, (tokensOf left >>= fun before =>
        (before ++ .operator mode :: ·) <$> tokensOf right) = .ok tokens ∧ IsStage tokens d) ↔
      ∃ command words target, wordsOf left = .ok (command :: words) ∧
        tokensOf right = .ok [.word target] ∧ WordKind.ofWord? target = some .single ∧
        d = ⟨command, words, some ⟨mode, target⟩⟩ := by
  rw [tokensOf_eq_wordsOf quoted]
  constructor
  · rintro ⟨tokens, htokens, stage⟩
    obtain ⟨before, hbefore, htokens⟩ := Outcome.bind_eq_ok.1 htokens
    obtain ⟨words, hwords, rfl⟩ := Outcome.map_eq_ok.1 hbefore
    obtain ⟨after, hafter, rfl⟩ := Outcome.map_eq_ok.1 htokens
    obtain ⟨command, more, target, rfl, rfl, single, rfl⟩ := isStage_operator_iff.1 stage
    exact ⟨command, more, target, hwords, hafter, single, rfl⟩
  · rintro ⟨command, words, target, hwords, htarget, single, rfl⟩
    refine ⟨_, ?_, .redirected command words mode single⟩
    rw [hwords, htarget]
    rfl

/-- A stage with one operator is read if there are words before it and one word after it that names
a single path. -/
theorem ofText_operator_iff {before rest : Text} {mode : WriteMode}
    (quoted : AllQuoted ['|', '>'] none rest)
    (hcut : cutAtOperators none (before ++ (mode.operator ++ rest)) = (before, [(mode, rest)]))
    {d : Draft} :
    Draft.ofText (before ++ (mode.operator ++ rest)) = .ok d ↔
      ∃ command words target, wordsOf before = .ok (command :: words) ∧
        tokensOf rest = .ok [.word target] ∧ WordKind.ofWord? target = some .single ∧
        d = ⟨command, words, some ⟨mode, target⟩⟩ := by
  rw [ofText_eq_ok, hcut, tokensOf_eq_wordsOf quoted]
  constructor
  · rintro ⟨redirection, command, words, hr, hwords, rfl⟩
    obtain ⟨r, hread, rfl⟩ := Outcome.map_eq_ok.1 hr
    obtain ⟨target, htarget, single, rfl⟩ := readRedirection_eq_ok.1 hread
    exact ⟨command, words, target, hwords, Outcome.map_eq_ok.2 ⟨_, htarget, rfl⟩, single, rfl⟩
  · rintro ⟨command, words, target, hwords, htokens, single, rfl⟩
    obtain ⟨targets, htargets, hmap⟩ := Outcome.map_eq_ok.1 htokens
    obtain rfl : targets = [target] := map_word_injective hmap
    exact ⟨_, command, words, Outcome.map_eq_ok.2
      ⟨_, readRedirection_eq_ok.2 ⟨target, htargets, single, rfl⟩, rfl⟩, hwords, rfl⟩

/-- Behind an operator there is more than one word if another one follows. -/
theorem tokensOf_operator_ne_word {before rest : Text} {mode : WriteMode}
    (longest : mode = .truncate → rest.head? ≠ some '>') (first : AllQuoted ['>'] none before)
    (closed : quoteStateAfter none before = none) (target : Text) :
    tokensOf (before ++ (mode.operator ++ rest)) ≠ .ok [.word target] := by
  rw [tokensOf_cut_operator mode longest first closed]
  intro h
  obtain ⟨left, -, h⟩ := Outcome.bind_eq_ok.1 h
  obtain ⟨right, -, heq⟩ := Outcome.map_eq_ok.1 h
  have hm : Token.operator mode ∈ [Token.word target] := by simp [← heq]
  simp at hm

/-- **A stage is read exactly if its tokens have the form of one**, and it is read off them. -/
theorem ofText_eq_ok_iff_isStage {text : Text} (quoted : AllQuoted ['|'] none text) {d : Draft} :
    Draft.ofText text = .ok d ↔ ∃ tokens, tokensOf text = .ok tokens ∧ IsStage tokens d := by
  rcases cutAtOperators_cases none text with
    ⟨hq, hcut⟩ | ⟨before, mode, rest, rfl, hq, hclosed, hlong, hcut⟩
  · exact ofText_words_iff (quoted.both hq) hcut
  · obtain ⟨quotedBefore, quotedRest⟩ := allQuoted_operator hclosed quoted
    rw [tokensOf_cut_operator mode hlong hq hclosed, isStage_sides_iff (quotedBefore.both hq)]
    rcases cutAtOperators_cases none rest with
      ⟨hq', hcut'⟩ | ⟨before', mode', rest', rfl, hq', hclosed', hlong', hcut'⟩
    · rw [hcut'] at hcut
      exact ofText_operator_iff (quotedRest.both hq') hcut
    · -- a second operator is refused, and what stands before it is no word either way
      rw [hcut'] at hcut
      rw [ofText_eq_ok, hcut]
      constructor
      · rintro ⟨redirection, command, words, hr, -, -⟩
        cases hr
      · rintro ⟨command, words, target, -, htarget, -, -⟩
        exact absurd htarget (tokensOf_operator_ne_word hlong' hq' hclosed' target)

/-! ## A line -/

/-- Blanks taken off the ends of a text unquote nothing. -/
theorem allQuoted_trim {signs : List Char} {t : Text} (h : AllQuoted signs none t) :
    AllQuoted signs none t.trim := by
  have hstart : AllQuoted signs none t.trimStart := by
    -- a blank that is taken off neither opens nor closes a quote
    induction t with
    | nil => exact h
    | cons c t ih =>
      rw [Text.trimStart, List.dropWhile_cons]
      split
      · next hblank => exact ih (by simpa [not_isQuote_of_isBlank hblank] using h.2)
      · exact h
  obtain ⟨blanks, hsplit, -⟩ := exists_trimEnd_append t.trimStart
  rw [hsplit, allQuoted_append] at hstart
  exact hstart.1

/-- **The stages of a line are read exactly if its tokens have the form of a line**, and they are
read off them. -/
theorem mapM_ofText_eq_ok_iff (line : Text) {drafts : List Draft} :
    ((cutAtBars true none line).map Text.trim).mapM Draft.ofText = .ok drafts ↔
      ∃ tokens, tokensOf line = .ok tokens ∧ IsLine tokens drafts := by
  induction hparts : cutAtBars true none line generalizing line drafts with
  | nil => exact absurd hparts (cutAtBars_ne_nil true none line)
  | cons part parts ih =>
    rcases cutAtBars_cases none line with ⟨hq, hcut⟩ | ⟨before, rest, rfl, hq, hclosed, hcut⟩
    · -- the last stage: no bar is left outside quotes
      obtain ⟨rfl, rfl⟩ : part = line ∧ parts = [] := by simpa [hcut, eq_comm] using hparts
      rw [List.map_cons, List.map_nil, Outcome.mapM_cons_eq_ok]
      simp only [Outcome.mapM_nil_eq_ok, ofText_eq_ok_iff_isStage (allQuoted_trim hq),
        tokensOf_trim]
      constructor
      · rintro ⟨d, _, ⟨tokens, htokens, stage⟩, rfl, rfl⟩
        exact ⟨tokens, htokens, .last stage⟩
      · rintro ⟨tokens, htokens, hline⟩
        obtain ⟨d, rfl, stage⟩ :=
          (isLine_iff_of_bar_not_mem (bar_not_mem_tokensFrom hq htokens)).1 hline
        exact ⟨d, [], ⟨tokens, htokens, stage⟩, rfl, rfl⟩
    · -- a stage, a bar and the stages that follow
      obtain ⟨rfl, rfl⟩ : part = before ∧ parts = cutAtBars true none rest := by
        simpa [hcut, eq_comm] using hparts
      rw [List.map_cons, Outcome.mapM_cons_eq_ok, tokensOf_cut_bar hclosed]
      simp only [ofText_eq_ok_iff_isStage (allQuoted_trim hq), tokensOf_trim, ih rest rfl]
      constructor
      · rintro ⟨d, ds, ⟨left, hleft, stage⟩, ⟨right, hright, hline⟩, rfl⟩
        exact ⟨_, Outcome.bind_eq_ok.2 ⟨left, hleft, Outcome.map_eq_ok.2 ⟨right, hright, rfl⟩⟩,
          .more stage hline⟩
      · rintro ⟨tokens, htokens, hline⟩
        obtain ⟨left, hleft, htokens⟩ := Outcome.bind_eq_ok.1 htokens
        obtain ⟨right, hright, rfl⟩ := Outcome.map_eq_ok.1 htokens
        obtain ⟨d, ds, rfl, stage, hline⟩ :=
          (isLine_bar_iff (bar_not_mem_tokensFrom hq hleft)).1 hline
        exact ⟨d, ds, ⟨left, hleft, stage⟩, ⟨right, hright, hline⟩, rfl⟩

/-- Nothing but blanks is trimmed to nothing. -/
theorem trim_eq_nil {t : Text} (h : t.isAllBlank = true) : t.trim = [] := by
  have hstart : t.trimStart = [] := by
    rw [Text.trimStart]
    exact List.dropWhile_eq_nil_iff.2 (List.all_eq_true.1 h)
  rw [Text.trim, hstart]
  rfl

/-- Nothing but blanks holds no bar to cut at. -/
theorem cutAtBars_of_isAllBlank (aware : Bool) {t : Text} (h : t.isAllBlank = true) :
    cutAtBars aware none t = [t] := by
  induction t with
  | nil => rfl
  | cons c t ih =>
    obtain ⟨hc, ht⟩ : isBlank c = true ∧ Text.isAllBlank t = true := by
      simpa [Text.isAllBlank] using h
    have hbar : c ≠ '|' := by rintro rfl; exact absurd hc (by decide)
    simp [cutAtBars, hbar, not_isQuote_of_isBlank hc, ih ht]

/-- **The texts of a line's stages** are its parts between bars, trimmed, if none of these is
empty. -/
theorem stageTexts_eq_ok {aware : Bool} {line : Text} {texts : List Text} :
    stageTexts aware line = .ok texts ↔
      texts = (cutAtBars aware none line).map Text.trim ∧ [] ∉ texts := by
  have hempty (ts : List Text) : ts.any List.isEmpty = true ↔ [] ∈ ts := by simp
  rw [stageTexts]
  split
  · next h =>
    -- a line of blanks is one part, and that is empty
    constructor
    · nofun
    · rintro ⟨rfl, hne⟩
      simp [cutAtBars_of_isAllBlank aware h, trim_eq_nil h] at hne
  · split
    · next h =>
      rw [hempty] at h
      constructor
      · nofun
      · rintro ⟨rfl, hne⟩
        exact absurd h hne
    · next h =>
      rw [hempty] at h
      constructor
      · intro heq
        obtain rfl := Except.ok.inj heq
        exact ⟨rfl, h⟩
      · rintro ⟨rfl, -⟩
        rfl

/-- **The three scanners agree with one reading of the whole line.** The stages are cut out and each
of them is read if and only if the tokens of the line have the form of a line; the drafts are then
the ones that the tokens spell. -/
theorem reads_iff_isLine (line : Text) (drafts : List Draft) :
    (∃ texts, stageTexts true line = .ok texts ∧ texts.mapM Draft.ofText = .ok drafts) ↔
      ∃ tokens, tokensOf line = .ok tokens ∧ IsLine tokens drafts := by
  rw [← mapM_ofText_eq_ok_iff]
  constructor
  · rintro ⟨texts, htexts, h⟩
    obtain ⟨rfl, -⟩ := stageTexts_eq_ok.1 htexts
    exact h
  · intro h
    refine ⟨_, stageTexts_eq_ok.2 ⟨rfl, fun hmem => ?_⟩, h⟩
    -- an empty text has no command word, so it is refused here too
    obtain ⟨d, hd⟩ := Outcome.exists_eq_ok_of_mapM h hmem
    cases hd

end FileShell
