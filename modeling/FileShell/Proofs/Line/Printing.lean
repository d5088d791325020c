import FileShell.Proofs.Line.Grammar

/-! # Printing lines

Every word can be typed: each of its characters is put in quotes of the kind that it is not itself
(`spelled`). Drafts printed in this way, with operators and bars between the words, are read as the
same drafts again, whatever characters their words are made of.

* **`printedLine`** — the line that is printed for drafts of its stages.
* **`tokensFrom_spelled`**, **`tokensFrom_printed`** — the tokens of a printed word and of a printed
  stage, whatever follows it.
* **`ofText_printed`** — printed drafts are read again. -/

namespace FileShell

/-! ## What is printed -/

/-- **A word spelled out**, one quoted character after the other. A single quote stands in double
quotes, any other character in single ones. -/
def spelled (word : Text) : Text :=
  word.flatMap fun c => if c = '\'' then ['"', c, '"'] else ['\'', c, '\'']

@[simp] theorem spelled_nil : spelled [] = [] := rfl

@[simp] theorem spelled_cons (c : Char) (word : Text) :
    spelled (c :: word) = (if c = '\'' then ['"', c, '"'] else ['\'', c, '\'']) ++ spelled word :=
  rfl

/-- Words spelled out with a blank between each two. -/
def spelledWords (words : List Text) : Text := Text.joined [' '] (words.map spelled)

/-- A redirection, with the same gap before and behind its operator. -/
def Redirection.printed (gap : Text) (r : Redirection) : Text :=
  gap ++ (r.mode.operator ++ (gap ++ spelled r.target))

/-- **A stage printed**: its words, and its redirection if it has one. -/
def Draft.printed (gap : Text) (d : Draft) : Text :=
  spelledWords (d.command :: d.words) ++ d.redirection.elim [] (Redirection.printed gap)

/-- **A line printed**: its stages with a bar between each two. -/
def printedLine (gap : Text) (drafts : List Draft) : Text :=
  Text.joined [' ', '|', ' '] (drafts.map (Draft.printed gap))

/-- **A draft of words that can be words**: none of them is empty, and the target of a redirection
names a single path. -/
structure Draft.Spellable (d : Draft) : Prop where
  command : d.command ≠ []
  words : ∀ word ∈ d.words, word ≠ []
  target : ∀ r ∈ d.redirection, WordKind.ofWord? r.target = some .single

/-- The tokens of a stage that a draft stands for. -/
def Draft.tokens (d : Draft) : List Token :=
  (d.command :: d.words).map .word ++
    d.redirection.elim [] fun r => [.operator r.mode, .word r.target]

/-- They are the tokens of a stage. -/
theorem Draft.Spellable.isStage {d : Draft} (h : d.Spellable) : IsStage d.tokens d := by
  obtain ⟨command, words, _ | ⟨mode, target⟩⟩ := d
  · simpa [Draft.tokens] using IsStage.plain command words
  · exact .redirected command words mode (h.target _ rfl)

/-! ## The tokens of what is printed -/

/-- **A word spelled out is collected as it is**, behind what was collected before. -/
theorem tokensFrom_spelled (collected word rest : Text) :
    tokensFrom none collected (spelled word ++ rest) =
      tokensFrom none (collected ++ word) rest := by
  induction word generalizing collected with
  | nil => simp
  | cons c word ih =>
    have hquoted : tokensFrom none collected (spelled (c :: word) ++ rest) =
        tokensFrom none (collected ++ [c]) (spelled word ++ rest) := by
      by_cases hc : c = '\''
      · simp [hc, tokensFrom_none_cons, isQuote]
      · simp [hc, tokensFrom_none_cons, isQuote]
    rw [hquoted, ih, List.append_assoc, List.singleton_append]

/-- What is spelled out begins with a quote, not with an operator. -/
theorem head?_spelled_ne {word : Text} (h : word ≠ []) (rest : Text) :
    (spelled word ++ rest).head? ≠ some '>' := by
  cases word with
  | nil => exact absurd rfl h
  | cons c word =>
    rw [spelled_cons]
    split <;> simp

/-- A word that is not empty is a token. -/
theorem Token.afterWord_of_ne_nil {word : Text} (h : word ≠ []) :
    Token.afterWord word = (.word word :: ·) := by
  funext tokens
  simp [Token.afterWord, h]

/-- Where no word was collected no token is added. -/
theorem Token.afterWord_nil_map (tokens : Except Char (List Token)) :
    Token.afterWord [] <$> tokens = tokens :=
  id_map tokens

variable {gap : Text}

/-- Blanks before a word add no token. -/
theorem tokensFrom_gap (blank : ∀ c ∈ gap, isBlank c = true) (rest : Text) :
    tokensFrom none [] (gap ++ rest) = tokensFrom none [] rest := by
  induction gap with
  | nil => rfl
  | cons c gap ih =>
    have hrest := ih fun d hd => blank d (List.mem_cons_of_mem _ hd)
    rw [List.cons_append, tokensFrom_blank (blank c List.mem_cons_self), hrest,
      Token.afterWord_nil_map]

/-- **An operator ends a word**, blanks before it or not. -/
theorem tokensFrom_gap_operator (blank : ∀ c ∈ gap, isBlank c = true) (mode : WriteMode)
    {rest : Text} (longest : rest.head? ≠ some '>') (word : Text) :
    tokensFrom none word (gap ++ (mode.operator ++ rest)) =
      Token.afterWord word <$> ((.operator mode :: ·) <$> tokensFrom none [] rest) := by
  have hoperator (collected : Text) : tokensFrom none collected (mode.operator ++ rest) =
      Token.afterWord collected <$> ((.operator mode :: ·) <$> tokensFrom none [] rest) := by
    rw [Functor.map_map]
    cases mode with
    | truncate => exact tokensFrom_truncate_sign collected longest
    | append => exact tokensFrom_append_sign collected rest
  cases gap with
  | nil => exact hoperator word
  | cons c gap =>
    -- the first blank ends the word, and nothing is collected in front of the operator
    have hgap := tokensFrom_gap (fun d hd => blank d (List.mem_cons_of_mem c hd))
      (mode.operator ++ rest)
    rw [List.cons_append, tokensFrom_blank (blank c List.mem_cons_self), hgap, hoperator [],
      Token.afterWord_nil_map]

/-- A bar between blanks ends a word. -/
theorem tokensFrom_spaced_bar (word rest : Text) :
    tokensFrom none word ([' ', '|', ' '] ++ rest) =
      Token.afterWord word <$> ((.bar :: ·) <$> tokensFrom none [] rest) := by
  have hblank (collected tail : Text) : tokensFrom none collected (' ' :: tail) =
      Token.afterWord collected <$> tokensFrom none [] tail := tokensFrom_blank (by decide) _ _
  simp only [List.cons_append, List.nil_append, hblank, tokensFrom_bar, Token.afterWord_nil,
    Token.afterWord_nil_map]

variable {rest : Text} {after : Except Char (List Token)}

/-- **Words written with blanks between them are the words**, if each of them is collected as it is
and if what follows the last one ends a word. -/
theorem tokensFrom_writtenWords {write : Text → Text}
    (ends : ∀ word, tokensFrom none word rest = Token.afterWord word <$> after) {words : List Text}
    (hne : words ≠ []) (nonempty : ∀ word ∈ words, word ≠ [])
    (written : ∀ word ∈ words, ∀ rest,
      tokensFrom none [] (write word ++ rest) = tokensFrom none word rest) :
    tokensFrom none [] (Text.joined [' '] (words.map write) ++ rest) =
      (words.map .word ++ ·) <$> after := by
  induction words with
  | nil => exact absurd rfl hne
  | cons word words ih =>
    have hword := Token.afterWord_of_ne_nil (nonempty word List.mem_cons_self)
    have hwritten := written word List.mem_cons_self
    cases words with
    | nil =>
      simp only [List.map_cons, List.map_nil, Text.joined_singleton, hwritten, ends, hword,
        List.singleton_append]
    | cons next words =>
      have hrest := ih (by simp) (fun w hw => nonempty w (List.mem_cons_of_mem _ hw))
        fun w hw => written w (List.mem_cons_of_mem _ hw)
      have hsplit : Text.joined [' '] ((word :: next :: words).map write) ++ rest =
          write word ++ (' ' :: (Text.joined [' '] ((next :: words).map write) ++ rest)) := by
        simp
      rw [hsplit, hwritten, tokensFrom_blank (by decide), hrest, Functor.map_map]
      simp only [hword]
      rfl

/-- **Words spelled out are the words**, if what follows them ends a word. -/
theorem tokensFrom_spelledWords
    (ends : ∀ word, tokensFrom none word rest = Token.afterWord word <$> after) {words : List Text}
    (hne : words ≠ []) (nonempty : ∀ word ∈ words, word ≠ []) :
    tokensFrom none [] (spelledWords words ++ rest) = (words.map .word ++ ·) <$> after :=
  tokensFrom_writtenWords ends hne nonempty fun word _ rest => tokensFrom_spelled [] word rest

/-- **The tokens of a printed stage** are those that its draft stands for, if what follows them ends
a word. -/
theorem tokensFrom_printed (blank : ∀ c ∈ gap, isBlank c = true) {d : Draft} (h : d.Spellable)
    (ends : ∀ word, tokensFrom none word rest = Token.afterWord word <$> after) :
    tokensFrom none [] (d.printed gap ++ rest) = (d.tokens ++ ·) <$> after := by
  obtain ⟨command, words, redirection⟩ := d
  have hwords : ∀ word ∈ command :: words, word ≠ [] := List.forall_mem_cons.2 ⟨h.command, h.words⟩
  cases redirection with
  | none =>
    simpa [Draft.printed, Draft.tokens] using tokensFrom_spelledWords ends (by simp) hwords
  | some r =>
    obtain ⟨mode, target⟩ := r
    have htarget : target ≠ [] := by
      rintro rfl
      have hsingle : WordKind.ofWord? [] = some .single := h.target _ rfl
      cases hsingle
    have hspelled : tokensFrom none [] (gap ++ (spelled target ++ rest)) =
        (.word target :: ·) <$> after := by
      rw [tokensFrom_gap blank, tokensFrom_spelled, List.nil_append, ends,
        Token.afterWord_of_ne_nil htarget]
    have hlongest : (gap ++ (spelled target ++ rest)).head? ≠ some '>' := by
      refine head?_append_ne (fun hgap => ?_) (head?_spelled_ne htarget rest)
      exact absurd (blank '>' (List.mem_of_mem_head? hgap)) (by decide)
    -- the operator ends the last of the words
    have hends := tokensFrom_gap_operator blank mode hlongest
    have htokens := tokensFrom_spelledWords hends (by simp) hwords
    simp only [Draft.printed, Draft.tokens, Redirection.printed, Option.elim_some,
      List.append_assoc]
    rw [htokens, hspelled, Functor.map_map, Functor.map_map]
    rfl

/-- **The tokens of a printed line** have the form of a line, and they say what was printed. -/
theorem exists_tokensOf_printedLine (blank : ∀ c ∈ gap, isBlank c = true) {drafts : List Draft}
    (hne : drafts ≠ []) (spellable : ∀ d ∈ drafts, d.Spellable) :
    ∃ tokens, tokensOf (printedLine gap drafts) = .ok tokens ∧ IsLine tokens drafts := by
  induction drafts with
  | nil => exact absurd rfl hne
  | cons d drafts ih =>
    have hd : d.Spellable := spellable d List.mem_cons_self
    cases drafts with
    | nil =>
      have hends (word : Text) : tokensFrom none word [] = Token.afterWord word <$> .ok [] :=
        tokensFrom_none_nil word
      have htokens := tokensFrom_printed blank hd hends
      rw [List.append_nil, Outcome.map_ok, List.append_nil] at htokens
      refine ⟨d.tokens, ?_, .last hd.isStage⟩
      rw [printedLine, List.map_singleton, Text.joined_singleton]
      exact htokens
    | cons next later =>
      obtain ⟨tokens, htokens, hline⟩ :=
        ih (by simp) fun e he => spellable e (List.mem_cons_of_mem _ he)
      have hends (word : Text) := tokensFrom_spaced_bar word (printedLine gap (next :: later))
      refine ⟨d.tokens ++ .bar :: tokens, ?_, .more hd.isStage hline⟩
      have hsplit : printedLine gap (d :: next :: later) =
          d.printed gap ++ ([' ', '|', ' '] ++ printedLine gap (next :: later)) := by
        simp [printedLine]
      rw [hsplit, tokensOf, tokensFrom_printed blank hd hends, ← tokensOf, htokens]
      rfl

/-! ## What is read again -/

/-- **Printed drafts are read again.** The line that is printed for drafts of its stages, with
blanks or nothing around the operators, is cut into as many texts as there are drafts, and each text
is read as its draft. -/
theorem ofText_printed (blank : ∀ c ∈ gap, isBlank c = true) {drafts : List Draft}
    (hne : drafts ≠ []) (spellable : ∀ d ∈ drafts, d.Spellable) :
    ∃ texts, stageTexts true (printedLine gap drafts) = .ok texts ∧
      List.Forall₂ (fun text draft => Draft.ofText text = .ok draft) texts drafts := by
  have hread := (mapM_ofText_eq_ok_iff _).2 (exists_tokensOf_printedLine blank hne spellable)
  refine ⟨_, stageTexts_eq_ok.2 ⟨rfl, fun hmem => ?_⟩, Outcome.mapM_eq_ok_iff.1 hread⟩
  -- from an empty text nothing is read
  obtain ⟨d, hd⟩ := Outcome.exists_eq_ok_of_mapM hread hmem
  cases hd

/-- Both kinds of quotes and a bar in a name, and no blanks around the operator. -/
theorem ofText_printed_cat :
    let drafts : List Draft :=
      [⟨"cat".toList, ["'|\"".toList], some ⟨.append, "a b".toList⟩⟩, ⟨"more".toList, [], none⟩]
    printedLine [] drafts = "'c''a''t' \"'\"'|''\"'>>'a'' ''b' | 'm''o''r''e'".toList ∧
      (∀ d ∈ drafts, d.Spellable) ∧
      ∃ texts, stageTexts true (printedLine [] drafts) = .ok texts ∧
        List.Forall₂ (fun text draft => Draft.ofText text = .ok draft) texts drafts := by
  intro drafts
  have spellable : ∀ d ∈ drafts, d.Spellable :=
    List.forall_mem_cons.2 ⟨⟨by decide, by decide, by decide⟩,
      List.forall_mem_singleton.2 ⟨by decide, by decide, by decide⟩⟩
  exact ⟨by rfl, spellable,
    ofText_printed (List.forall_mem_nil _) (List.cons_ne_nil _ _) spellable⟩

end FileShell
