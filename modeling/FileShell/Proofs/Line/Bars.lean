import FileShell.Proofs.Line.Grammar
import FileShell.Proofs.Line.Reading
import FileShell.Proofs.Shell.Run
import FileShell.Shell.Execute

/-! # Bars inside quotes

A line can be cut at all of its bars, or at those outside quotes alone. The two ways differ only
where a bar stands inside quotes. There the first way leaves a part in which a quote is open, and no
stage is read from such a part, so a line that is cut at all bars is refused or means the same as if
it had not been.

* **`HasQuotedBar`** — a bar stands inside quotes.
* **`exists_open_part`** — cutting at a quoted bar leaves a quote open.
* **`closed_of_ofText`** — in a text that is read as a stage all quotes are closed.
* **`parse_at_all_bars`** — the two ways of reading a line. -/

namespace FileShell

/-- **A configuration in which bars inside quotes are passed over**, or are not. -/
def Config.passingQuotedBars (c : Config) (aware : Bool) : Config :=
  { c with settings := { c.settings with quoteAwareBars := aware } }

/-! ## Quoted bars -/

/-- **A bar stands inside quotes** in a text that is read from a quote state on. -/
def HasQuotedBar (open? : Option Char) (t : Text) : Prop :=
  ∃ before rest, t = before ++ '|' :: rest ∧ quoteStateAfter open? before ≠ none

variable {open? : Option Char} {t : Text}

/-- The first character is a quoted bar, or one stands further on. -/
theorem hasQuotedBar_cons {c : Char} :
    HasQuotedBar open? (c :: t) ↔ c = '|' ∧ open? ≠ none ∨ HasQuotedBar (quoteAfter open? c) t := by
  constructor
  · rintro ⟨before, rest, heq, hopen⟩
    cases before with
    | nil =>
      obtain ⟨rfl, rfl⟩ : c = '|' ∧ t = rest := by simpa using heq
      exact .inl ⟨rfl, hopen⟩
    | cons d before =>
      obtain ⟨rfl, rfl⟩ : c = d ∧ t = before ++ '|' :: rest := by simpa using heq
      exact .inr ⟨before, rest, rfl, hopen⟩
  · rintro (⟨rfl, hopen⟩ | ⟨before, rest, rfl, hopen⟩)
    · exact ⟨[], t, rfl, hopen⟩
    · exact ⟨c :: before, rest, rfl, hopen⟩

/-- Whether a text has a quoted bar is found by one reading from left to right. -/
instance HasQuotedBar.decidable : (open? : Option Char) → (t : Text) → Decidable (HasQuotedBar open? t)
  | _, [] => .isFalse fun ⟨_, _, heq, _⟩ => by simp at heq
  | open?, c :: t =>
    have := HasQuotedBar.decidable (quoteAfter open? c) t
    decidable_of_iff _ hasQuotedBar_cons.symm

/-- **Without a quoted bar a text is cut in the same way**, whether quotes count or not. -/
theorem cutAtBars_eq_of_not_hasQuotedBar (h : ¬HasQuotedBar open? t) :
    cutAtBars false none t = cutAtBars true open? t := by
  induction t generalizing open? with
  | nil => rfl
  | cons c t ih =>
    rw [hasQuotedBar_cons, not_or] at h
    obtain ⟨hc, ht⟩ := h
    have hrest : cutAtBars false none t = cutAtBars true (quoteAfter open? c) t := ih ht
    by_cases hbar : c = '|'
    · subst hbar
      obtain rfl : open? = none := by simpa using hc
      simpa [cutAtBars, isQuote] using hrest
    · simp [cutAtBars, hbar, hrest]

/-- **Where a text is cut at a quoted bar, a quote is left open**: in the first part, which is read
from the quote state on, or in a later one. -/
theorem exists_open_part_from (h : HasQuotedBar open? t) :
    ∃ first rest, cutAtBars false none t = first :: rest ∧
      (quoteStateAfter open? first ≠ none ∨ ∃ part ∈ rest, quoteStateAfter none part ≠ none) := by
  induction t generalizing open? with
  | nil =>
    obtain ⟨before, rest, heq, -⟩ := h
    simp at heq
  | cons c t ih =>
    by_cases hbar : c = '|'
    · subst hbar
      have hcut : cutAtBars false none ('|' :: t) = [] :: cutAtBars false none t := by
        simp [cutAtBars]
      refine ⟨[], _, hcut, ?_⟩
      rcases hopen : open? with _ | q
      · -- the bar itself is not quoted, so a later one is
        subst hopen
        have hlater : HasQuotedBar none t := by simpa [hasQuotedBar_cons, isQuote] using h
        obtain ⟨first, rest, heq, hfirst | ⟨part, hmem, hpart⟩⟩ := ih hlater
        · exact .inr ⟨first, by simp [heq], hfirst⟩
        · exact .inr ⟨part, by simp [heq, hmem], hpart⟩
      · exact .inl (by simp)
    · -- any other character belongs to the first part
      have hlater : HasQuotedBar (quoteAfter open? c) t := by
        simpa [hasQuotedBar_cons, hbar] using h
      obtain ⟨first, rest, heq, hfirst⟩ := ih hlater
      have hcut : cutAtBars false none (c :: t) = (c :: first) :: rest := by
        simp [cutAtBars, hbar, heq]
      exact ⟨c :: first, rest, hcut, hfirst⟩

/-- A line that is cut at a quoted bar has a part with an open quote. -/
theorem exists_open_part (h : HasQuotedBar none t) :
    ∃ part ∈ cutAtBars false none t, quoteStateAfter none part ≠ none := by
  obtain ⟨first, rest, hcut, hfirst | ⟨part, hmem, hpart⟩⟩ := exists_open_part_from h
  · exact ⟨first, by simp [hcut], hfirst⟩
  · exact ⟨part, by simp [hcut, hmem], hpart⟩

/-- No bar is left in a part if a text is cut at all of them. -/
theorem bar_not_mem_part {part : Text} (h : part ∈ cutAtBars false none t) : '|' ∉ part := by
  induction t generalizing part with
  | nil =>
    obtain rfl : part = [] := by simpa using h
    exact List.not_mem_nil
  | cons c t ih =>
    obtain ⟨first, rest, hcut⟩ : ∃ first rest, cutAtBars false none t = first :: rest :=
      List.exists_cons_of_ne_nil (cutAtBars_ne_nil false none t)
    rw [hcut] at ih
    by_cases hbar : c = '|'
    · have hmem : part = [] ∨ part ∈ first :: rest := by simpa [cutAtBars, hbar, hcut] using h
      rcases hmem with rfl | hmem
      · exact List.not_mem_nil
      · exact ih hmem
    · have hmem : part = c :: first ∨ part ∈ rest := by simpa [cutAtBars, hbar, hcut] using h
      rcases hmem with rfl | hmem
      · have hfirst : '|' ∉ first := ih List.mem_cons_self
        simp [hfirst, Ne.symm hbar]
      · exact ih (List.mem_cons_of_mem _ hmem)

/-! ## Open quotes -/

/-- The quote state after two texts is reached through the state after the first. -/
theorem quoteStateAfter_append (open? : Option Char) (s t : Text) :
    quoteStateAfter open? (s ++ t) = quoteStateAfter (quoteStateAfter open? s) t :=
  List.foldl_append

/-- Blanks leave the quote state as it is. -/
theorem quoteStateAfter_blanks (open? : Option Char) (hopen : ∀ q ∈ open?, isQuote q = true)
    {blanks : Text} (h : ∀ c ∈ blanks, isBlank c = true) : quoteStateAfter open? blanks = open? := by
  induction blanks with
  | nil => rfl
  | cons c blanks ih =>
    have hc : isQuote c = false := not_isQuote_of_isBlank (h c List.mem_cons_self)
    have hstate : quoteAfter open? c = open? := by
      rcases open? with _ | q
      · simp [hc]
      · have hne : c ≠ q := by
          rintro rfl
          rw [hopen c rfl] at hc
          cases hc
        simp [hne]
    rw [quoteStateAfter_cons, hstate]
    exact ih fun d hd => h d (List.mem_cons_of_mem _ hd)

/-- The quote that is open at the end of a text is a quote. -/
theorem isQuote_of_mem_quoteStateAfter (hopen : ∀ q ∈ open?, isQuote q = true) :
    ∀ q ∈ quoteStateAfter open? t, isQuote q = true := by
  induction t generalizing open? with
  | nil => exact hopen
  | cons c t ih =>
    refine ih fun q hq => ?_
    rcases open? with _ | p
    · by_cases hc : isQuote c = true
      · obtain rfl : c = q := by simpa [hc] using hq
        exact hc
      · simp [hc] at hq
    · by_cases hc : c = p
      · simp [hc] at hq
      · obtain rfl : p = q := by simpa [hc] using hq
        exact hopen p rfl

/-- **Blanks that are trimmed off a text neither open nor close a quote.** -/
theorem quoteStateAfter_trim (t : Text) : quoteStateAfter none t.trim = quoteStateAfter none t := by
  have hstart : quoteStateAfter none t = quoteStateAfter none t.trimStart := by
    have hblanks : ∀ c ∈ t.takeWhile isBlank, isBlank c = true :=
      fun c hc => List.all_eq_true.1 List.all_takeWhile c hc
    have hsplit : t = t.takeWhile isBlank ++ t.trimStart := List.takeWhile_append_dropWhile.symm
    conv_lhs => rw [hsplit, quoteStateAfter_append, quoteStateAfter_blanks none (by simp) hblanks]
  have hend : quoteStateAfter none t.trimStart = quoteStateAfter none t.trim := by
    obtain ⟨blanks, hsplit, hblanks⟩ := exists_trimEnd_append t.trimStart
    conv_lhs => rw [hsplit, quoteStateAfter_append]
    exact quoteStateAfter_blanks _ (isQuote_of_mem_quoteStateAfter (by simp)) hblanks
  rw [hstart, hend]

/-- A text that has tokens leaves no quote open. -/
theorem closed_of_tokensFrom {word : Text} {tokens : List Token}
    (h : tokensFrom open? word t = .ok tokens) : quoteStateAfter open? t = none := by
  induction open?, word, t using tokensFrom.induct generalizing tokens with
  | case1 q word => simp at h
  | case2 word q t ih => simpa using ih (by simpa using h)
  | case3 q word c t hc ih => simpa [hc] using ih (by simpa [hc] using h)
  | case4 word => rfl
  | case5 word t ih =>
    rw [tokensFrom_append_sign] at h
    obtain ⟨later, hlater, -⟩ := Outcome.map_eq_ok.1 h
    exact ih hlater
  | case6 word t ht ih =>
    rw [tokensFrom_truncate_sign word (head?_ne_of_forall ht)] at h
    obtain ⟨later, hlater, -⟩ := Outcome.map_eq_ok.1 h
    exact ih hlater
  | case7 word t ih =>
    rw [tokensFrom_bar] at h
    obtain ⟨later, hlater, -⟩ := Outcome.map_eq_ok.1 h
    exact ih hlater
  | case8 word c t _ hs hb hq ih =>
    simpa [hq] using ih (by simpa [tokensFrom_none_cons hs hb, hq] using h)
  | case9 word c t _ hs hb hq hblank ih =>
    rw [tokensFrom_blank hblank] at h
    obtain ⟨later, hlater, -⟩ := Outcome.map_eq_ok.1 h
    simpa [hq] using ih hlater
  | case10 word c t _ hs hb hq hblank ih =>
    simpa [hq] using ih (by simpa [tokensFrom_none_cons hs hb, hq, hblank] using h)

/-- A text without a sign keeps it quoted. -/
theorem allQuoted_of_not_mem {sign : Char} (h : sign ∉ t) : AllQuoted [sign] open? t := by
  induction t generalizing open? with
  | nil => trivial
  | cons c t ih =>
    obtain ⟨hc, ht⟩ : sign ≠ c ∧ sign ∉ t := by simpa using h
    exact ⟨fun _ => by simpa using Ne.symm hc, ih ht⟩

/-- **In a text without bars that is read as a stage all quotes are closed.** -/
theorem closed_of_ofText (bars : '|' ∉ t) {d : Draft} (h : Draft.ofText t = .ok d) :
    quoteStateAfter none t = none := by
  obtain ⟨tokens, htokens, -⟩ := (ofText_eq_ok_iff_isStage (allQuoted_of_not_mem bars)).1 h
  exact closed_of_tokensFrom htokens

/-- What is trimmed off a text was part of it. -/
theorem mem_of_mem_trim {c : Char} (h : c ∈ t.trim) : c ∈ t := by
  have hend : c ∈ t.trimStart := by
    obtain ⟨blanks, hsplit, -⟩ := exists_trimEnd_append t.trimStart
    rw [hsplit]
    exact List.mem_append_left _ h
  exact (List.dropWhile_sublist _).subset hend

/-! ## The two ways of reading a line -/

/-- **A line with a quoted bar is refused** if it is cut at all bars. -/
theorem exists_error_of_hasQuotedBar (c : Config) (h : HasQuotedBar none t) :
    ∃ e, (c.passingQuotedBars false).parse t = .error e := by
  rcases hparse : (c.passingQuotedBars false).parse t with e | stages
  · exact ⟨e, rfl⟩
  · exfalso
    obtain ⟨texts, htexts, hstages⟩ := Outcome.bind_eq_ok.1 hparse
    rw [Outcome.mapError_eq_ok_iff] at htexts
    obtain ⟨rfl, -⟩ := stageTexts_eq_ok.1 htexts
    obtain ⟨part, hmem, hopen⟩ := exists_open_part h
    have htrim : part.trim ∈ (cutAtBars false none t).map Text.trim := List.mem_map_of_mem hmem
    obtain ⟨draft, hdraft⟩ := exists_draft_of_readStages hstages htrim
    have hbars : '|' ∉ part.trim := fun hbar => bar_not_mem_part hmem (mem_of_mem_trim hbar)
    have hclosed : quoteStateAfter none part.trim = none := closed_of_ofText hbars hdraft
    rw [quoteStateAfter_trim] at hclosed
    exact hopen hclosed

/-- **A line without a quoted bar is read in the same way**, whether quotes count or not. -/
theorem parse_eq_of_not_hasQuotedBar (c : Config) (h : ¬HasQuotedBar none t) :
    (c.passingQuotedBars false).parse t = (c.passingQuotedBars true).parse t := by
  have htexts : stageTexts false t = stageTexts true t := by
    rw [stageTexts, stageTexts, cutAtBars_eq_of_not_hasQuotedBar h]
  have hstages (texts : List Text) :
      (c.passingQuotedBars false).readStages texts =
        (c.passingQuotedBars true).readStages texts := by
    induction texts with
    | nil => rfl
    | cons text rest ih => rw [Config.readStages, Config.readStages, ih]; rfl
  rw [Config.parse, Config.parse]
  change ((stageTexts false t).mapError Failure.line >>= _) =
    ((stageTexts true t).mapError Failure.line >>= _)
  rw [htexts]
  congr 1
  funext texts
  exact hstages texts

/-- **Cutting a line at all of its bars never changes what it means.** What is read in this way is
read if quotes count, and means the same. A line with a bar inside quotes is refused before anything
runs; all other lines are read, or refused, in the same way whether quotes count or not. -/
theorem parse_at_all_bars (c : Config) (line : Text) :
    (∀ stages, (c.passingQuotedBars false).parse line = .ok stages →
      (c.passingQuotedBars true).parse line = .ok stages) ∧
    (HasQuotedBar none line → ∃ e, (c.passingQuotedBars false).parse line = .error e ∧
      ∀ now s, runLine ⟨c.passingQuotedBars false, now⟩ line s =
        .error e ((s.logged .info (lineRecord line)).logged .warning
          (e.label ++ " error: ".toList ++ e.message))) ∧
    (¬HasQuotedBar none line →
      (c.passingQuotedBars false).parse line = (c.passingQuotedBars true).parse line) := by
  refine ⟨fun stages hstages => ?_, fun hquoted => ?_, parse_eq_of_not_hasQuotedBar c⟩
  · by_cases hquoted : HasQuotedBar none line
    · obtain ⟨e, he⟩ := exists_error_of_hasQuotedBar c hquoted
      rw [hstages] at he
      cases he
    · rw [← parse_eq_of_not_hasQuotedBar c hquoted]
      exact hstages
  · obtain ⟨e, he⟩ := exists_error_of_hasQuotedBar c hquoted
    exact ⟨e, he, fun now s => runLine_of_parse_eq_error he s⟩

/-- A quoted bar in the name of a file, and a bar between two stages. -/
theorem parse_at_all_bars_cat :
    (HasQuotedBar none "cat 'a|b' | more".toList ∧
      ∃ e, (Config.default.passingQuotedBars false).parse "cat 'a|b' | more".toList = .error e) ∧
    (¬HasQuotedBar none "cat 'a' | more".toList ∧
      (Config.default.passingQuotedBars false).parse "cat 'a' | more".toList =
        (Config.default.passingQuotedBars true).parse "cat 'a' | more".toList) := by
  have hquoted : HasQuotedBar none "cat 'a|b' | more".toList := by decide
  have hplain : ¬HasQuotedBar none "cat 'a' | more".toList := by decide
  obtain ⟨e, he, -⟩ := (parse_at_all_bars Config.default _).2.1 hquoted
  exact ⟨⟨hquoted, e, he⟩, hplain, (parse_at_all_bars Config.default _).2.2 hplain⟩

end FileShell
