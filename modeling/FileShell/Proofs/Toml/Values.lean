import FileShell.Proofs.Toml.Strings
import FileShell.Toml.Reader

/-! # Values read back

What is written for a number, a truth value, a text or a list of texts is read as just that where the
line ends behind it (`ReadsAs`). A number is not taken for a date or a time, since digits alone are
neither; the items of a list are read one by one, whether they share a line or not.

* **`readsAs_number`**, **`readsAs_boolean`**, **`readsAs_string`**, **`readsAs_list`** — the four
  kinds of values that are written. -/

namespace FileShell.Toml

/-- **A text is read as a value** at the end of a line, if the bound is large enough. -/
structure ReadsAs (t : Text) (v : Value) : Prop where
  /-- It begins with no space. -/
  flush : ∃ c u, t = c :: u ∧ isSpace c = false
  /-- It is read to its end. -/
  read : ∀ bound room rest, t.length < bound → 0 < room →
    value bound room (t ++ '\n' :: rest) = some (v, '\n' :: rest)

/-! ## Numbers -/

/-- **Characters of different kinds are different.** -/
theorem ne_of_kind {p : Char → Bool} {c d : Char} (hc : p c = true) (hd : p d = false) : c ≠ d := by
  rintro rfl
  rw [hc] at hd
  cases hd

/-- Texts of digits alone. -/
def AllDigits (t : Text) : Prop := ∀ c ∈ t, c.isDigit = true

variable {digits rest : Text}

theorem AllDigits.tail {c : Char} (h : AllDigits (c :: digits)) : AllDigits digits :=
  fun d hd => h d (List.mem_cons_of_mem c hd)

theorem allDigits_ofNat (n : Nat) : AllDigits (Text.ofNat n) :=
  fun _ hc => Nat.isDigit_of_mem_toDigits (by decide) (by decide) hc

/-- Nothing but a digit or a newline stands at the start of digits before the end of a line. -/
theorem expect_digits (h : AllDigits digits) {c : Char} (hdigit : c.isDigit = false)
    (hline : c ≠ '\n') : expect c (digits ++ '\n' :: rest) = none := by
  cases digits with
  | nil => simp [expect, hline]
  | cons d digits =>
    have hne : d ≠ c := ne_of_kind (h d List.mem_cons_self) hdigit
    simp [expect, hne.symm]

/-- After two digits there are digits again. -/
theorem twoDigits?_digits (h : AllDigits digits) (rest : Text) :
    twoDigits? (digits ++ '\n' :: rest) = none ∨
      ∃ n later, AllDigits later ∧
        twoDigits? (digits ++ '\n' :: rest) = some (n, later ++ '\n' :: rest) := by
  match digits with
  | [] => exact .inl (by cases rest <;> rfl)
  | [c] => exact .inl (by simp [twoDigits?, isDigit])
  | c :: d :: later =>
    by_cases hboth : (isDigit c && isDigit d) = true
    · exact .inr ⟨numberOf 10 [c, d], later, h.tail.tail, by simp [twoDigits?, hboth]⟩
    · exact .inl (by simp [twoDigits?, hboth])

/-- Digits alone are no date. -/
theorem afterDate?_digits (h : AllDigits digits) : afterDate? (digits ++ '\n' :: rest) = none := by
  unfold afterDate?
  rcases twoDigits?_digits h rest with hnone | ⟨n, later, hlater, htwo⟩
  · rw [hnone]
    rfl
  · rw [htwo]
    show (twoDigits? (later ++ '\n' :: rest) >>= _) = none
    rcases twoDigits?_digits hlater rest with hnone | ⟨m, last, hlast, htwo⟩
    · rw [hnone]
      rfl
    · rw [htwo]
      show (expect '-' (last ++ '\n' :: rest) >>= _) = none
      rw [expect_digits hlast (by decide) (by decide)]
      rfl

/-- Digits alone are no time. -/
theorem afterTime?_digits (h : AllDigits digits) : afterTime? (digits ++ '\n' :: rest) = none := by
  have hminutes : afterMinutes? (digits ++ '\n' :: rest) = none := by
    unfold afterMinutes?
    rcases twoDigits?_digits h rest with hnone | ⟨n, later, hlater, htwo⟩
    · rw [hnone]
      rfl
    · rw [htwo]
      show (expect ':' (later ++ '\n' :: rest) >>= _) = none
      rw [expect_digits hlater (by decide) (by decide)]
      rfl
  unfold afterTime?
  rw [hminutes]
  rfl

theorem afterMoment?_digits (h : AllDigits digits) :
    afterMoment? (digits ++ '\n' :: rest) = none := by
  rw [afterMoment?, afterDate?_digits h]
  exact afterTime?_digits h

/-- All digits are taken, up to the end of the line. -/
theorem moreDigits_digits (h : AllDigits digits) :
    moreDigits isDigit (digits ++ '\n' :: rest) = (digits, '\n' :: rest) := by
  induction digits with
  | nil => rfl
  | cons c digits ih =>
    have hc : isDigit c = true := h c List.mem_cons_self
    have hline : c ≠ '_' := ne_of_kind hc rfl
    rw [List.cons_append, moreDigits.eq_def]
    split
    case h_1 heq => cases heq
    case h_2 heq => exact absurd (List.cons.inj heq).1 hline
    case h_3 d later _ heq =>
      obtain ⟨rfl, rfl⟩ := List.cons.inj heq
      rw [if_pos hc, ih h.tail]

/-- The value of a decimal digit. -/
theorem hexDigit?_of_isDigit {c : Char} (h : c.isDigit = true) :
    hexDigit? c = some (c.toNat - '0'.toNat) := by
  have hrange : '0' ≤ c ∧ c ≤ '9' := by
    simpa [Char.isDigit, Char.le_def] using h
  rw [hexDigit?, if_pos hrange]

/-- **The number that the digits of a number stand for.** -/
theorem numberOf_ofNat (n : Nat) : numberOf 10 (Text.ofNat n) = n := by
  have hvalue : ∀ digits, AllDigits digits → ∀ init,
      digits.foldl (fun n c => 10 * n + (hexDigit? c).getD 0) init =
        Nat.ofDigitChars 10 digits init := by
    intro digits hdigits
    induction digits with
    | nil => exact fun _ => rfl
    | cons c digits ih =>
      intro init
      rw [List.foldl_cons, ih hdigits.tail, hexDigit?_of_isDigit (hdigits c List.mem_cons_self)]
      rfl
  rw [numberOf, hvalue _ (allDigits_ofNat n)]
  exact Nat.ofDigitChars_toDigits (by decide) (by decide)

/-- A number other than zero does not begin with a zero. -/
theorem head_ofNat {n : Nat} (h : 0 < n) : ∃ c digits, Text.ofNat n = c :: digits ∧ c ≠ '0' := by
  induction n using Nat.strongRecOn with
  | _ n ih =>
    by_cases hsmall : n < 10
    · have hdigit : ∀ n < 10, 0 < n → n.digitChar ≠ '0' := by decide
      exact ⟨n.digitChar, [], Nat.toDigits_of_lt_base hsmall, hdigit n hsmall h⟩
    · obtain ⟨c, digits, heq, hc⟩ := ih (n / 10) (by omega) (by omega)
      refine ⟨c, digits ++ [(n % 10).digitChar], ?_, hc⟩
      rw [Text.ofNat, Nat.toDigits_of_base_le (by decide) (by omega)]
      show Text.ofNat (n / 10) ++ _ = _
      rw [heq]
      rfl

/-- Digits that do not begin with a zero are the whole part of a number without a sign. -/
theorem wholeDigits?_digits {c : Char} (h : AllDigits (c :: digits)) (hzero : c ≠ '0') :
    wholeDigits? (c :: digits ++ '\n' :: rest) = some (c :: digits, '\n' :: rest) := by
  rw [List.cons_append, wholeDigits?.eq_def]
  split
  case h_1 heq => exact absurd (List.cons.inj heq).1 hzero
  case h_2 =>
    have hc : isDigit c = true := h c List.mem_cons_self
    rw [digits?, if_pos hc, moreDigits_digits h.tail]

/-- **Digits before the end of a line are an integer**, unless it is too large; they must not begin
with a zero. -/
theorem number_digits {c : Char} (h : AllDigits (c :: digits)) (hzero : c ≠ '0') :
    number (c :: digits ++ '\n' :: rest) =
      (word? (numberOf 10 (c :: digits))).map fun v => (v, '\n' :: rest) := by
  have hc : c.isDigit = true := h c List.mem_cons_self
  -- a first digit is no sign and begins no name of a number
  have hsign : sign (c :: digits ++ '\n' :: rest) = (false, c :: digits ++ '\n' :: rest) := by
    rw [List.cons_append, sign.eq_def]
    split
    case h_1 heq => exact absurd (List.cons.inj heq).1 (ne_of_kind hc rfl)
    case h_2 heq => exact absurd (List.cons.inj heq).1 (ne_of_kind hc rfl)
    case h_3 => rfl
  have hnamed : namedNumber? (c :: digits ++ '\n' :: rest) = none := by
    rw [List.cons_append, namedNumber?.eq_def]
    split
    case h_1 heq => exact absurd (List.cons.inj heq).1 (ne_of_kind hc rfl)
    case h_2 heq => exact absurd (List.cons.inj heq).1 (ne_of_kind hc rfl)
    case h_3 => rfl
  have hafter : afterWhole? ('\n' :: rest) = none := rfl
  -- the other bases begin with a zero
  rw [number.eq_def]
  split
  case h_1 heq => exact absurd (List.cons.inj heq).1 hzero
  case h_2 heq => exact absurd (List.cons.inj heq).1 hzero
  case h_3 heq => exact absurd (List.cons.inj heq).1 hzero
  case h_4 =>
    simp only [hsign, hnamed, wholeDigits?_digits h hzero, Option.bind_eq_bind, Option.bind_some,
      hafter, Bool.false_eq_true, if_false]
    cases word? (numberOf 10 (c :: digits)) <;> rfl

/-- An integer that is not below zero is a signed word if it is not too large. -/
theorem word?_natural {n : Nat} (h : (n : Int) ≤ Int64.maxValue.toInt) :
    word? n = some (.integer n) := by
  have hmin : Int64.minValue.toInt = -9223372036854775808 := by decide
  rw [word?, if_pos ⟨by omega, h⟩]

/-- What begins neither an array nor an inline table is a value of one word. -/
theorem value_scalar {c : Char} (harray : c ≠ '[') (htable : c ≠ '\x7b') (bound room : Nat)
    (t : Text) : value (bound + 1) room (c :: t) = scalar (c :: t) := by
  rw [value.eq_def]
  split
  all_goals simp_all

/-- **A number is read back** if it is above zero and a signed word. -/
theorem readsAs_number {n : Nat} (hpos : 0 < n) (hword : (n : Int) ≤ Int64.maxValue.toInt) :
    ReadsAs (Text.ofNat n) (.integer n) := by
  obtain ⟨c, digits, heq, hzero⟩ := head_ofNat hpos
  have hdigits := allDigits_ofNat n
  have hnumber := numberOf_ofNat n
  rw [heq] at hdigits hnumber ⊢
  have hc : c.isDigit = true := hdigits c List.mem_cons_self
  have hscalar (rest : Text) :
      scalar (c :: digits ++ '\n' :: rest) = some (.integer n, '\n' :: rest) := by
    have hstring : anyString (c :: digits ++ '\n' :: rest) = none := by
      rw [List.cons_append, anyString.eq_def]
      split
      case h_5 => rfl
      all_goals
        next heq => exact absurd (List.cons.inj heq).1 (ne_of_kind hc rfl)
    unfold scalar
    rw [hstring]
    simp only [afterMoment?_digits hdigits, number_digits hdigits hzero, hnumber,
      word?_natural hword]
    split
    · next heq => exact absurd (List.cons.inj heq).1 (ne_of_kind hc rfl)
    · next heq => exact absurd (List.cons.inj heq).1 (ne_of_kind hc rfl)
    · rfl
  refine ⟨⟨c, digits, rfl, ?_⟩, ?_⟩
  · simp [isSpace, ne_of_kind hc (d := ' ') rfl, ne_of_kind hc (d := '\t') rfl]
  · intro bound room rest hbound hroom
    obtain ⟨bound, rfl⟩ := Nat.exists_eq_add_one_of_ne_zero (Nat.ne_zero_of_lt hbound)
    rw [← hscalar rest]
    exact value_scalar (ne_of_kind hc rfl) (ne_of_kind hc rfl) bound room _

/-! ## Truth values -/

/-- **A truth value is read back.** -/
theorem readsAs_boolean (b : Bool) : ReadsAs (writeBoolean b) (.boolean b) := by
  cases b with
  | true =>
    refine ⟨⟨'t', _, rfl, rfl⟩, ?_⟩
    intro bound room rest hbound hroom
    obtain ⟨bound, rfl⟩ := Nat.exists_eq_add_one_of_ne_zero (Nat.ne_zero_of_lt hbound)
    exact value_scalar (by decide) (by decide) bound room _
  | false =>
    refine ⟨⟨'f', _, rfl, rfl⟩, ?_⟩
    intro bound room rest hbound hroom
    obtain ⟨bound, rfl⟩ := Nat.exists_eq_add_one_of_ne_zero (Nat.ne_zero_of_lt hbound)
    exact value_scalar (by decide) (by decide) bound room _

/-! ## Texts -/

/-- What is written for a text begins with a quote. -/
theorem head_writeString (t : Text) : ∃ q u, writeString t = q :: u ∧ (q = '"' ∨ q = '\'') := by
  cases hstyle : StringStyle.ofText t with
  | basic => exact ⟨'"', t.flatMap basicChar ++ ['"'], by simp [writeString, hstyle], .inl rfl⟩
  | literal => exact ⟨'\'', t ++ ['\''], by simp [writeString, hstyle], .inr rfl⟩
  | basicLines =>
    exact ⟨'"', '"' :: '"' :: (leadingNewline t ++ basicLinesText 0 t ++ ['"', '"', '"']),
      by simp [writeString, hstyle], .inl rfl⟩
  | literalLines =>
    exact ⟨'\'', '\'' :: '\'' :: (leadingNewline t ++ t ++ ['\'', '\'', '\'']),
      by simp [writeString, hstyle], .inr rfl⟩

/-- **A text is read back** as a value, in front of anything but a quote. -/
theorem value_writeString (t : Text) {bound room : Nat} (hbound : 0 < bound)
    (hbasic : rest.head? ≠ some '"') (hliteral : rest.head? ≠ some '\'') :
    value bound room (writeString t ++ rest) = some (.text t, rest) := by
  obtain ⟨bound, rfl⟩ := Nat.exists_eq_add_one_of_ne_zero (Nat.ne_zero_of_lt hbound)
  have hstring := anyString_writeString t hbasic hliteral
  obtain ⟨q, u, heq, hq⟩ := head_writeString t
  have hscalar : scalar (writeString t ++ rest) = some (.text t, rest) := by
    unfold scalar
    rw [hstring]
  rw [← hscalar, heq, List.cons_append]
  rcases hq with rfl | rfl
  · exact value_scalar (by decide) (by decide) bound room _
  · exact value_scalar (by decide) (by decide) bound room _

theorem readsAs_string (t : Text) : ReadsAs (writeString t) (.text t) := by
  refine ⟨?_, fun bound room rest hbound _ => ?_⟩
  · obtain ⟨q, u, heq, hq⟩ := head_writeString t
    refine ⟨q, u, heq, ?_⟩
    rcases hq with rfl | rfl <;> rfl
  · exact value_writeString t (Nat.zero_lt_of_lt hbound) (by simp) (by simp)

/-! ## Lists of texts -/

/-- Nothing is skipped in front of a text. -/
theorem skipGaps_writeString (t rest : Text) :
    skipGaps false (writeString t ++ rest) = writeString t ++ rest := by
  obtain ⟨q, u, heq, hq⟩ := head_writeString t
  rw [heq]
  rcases hq with rfl | rfl <;> rfl

/-- An array whose next item is a text does not end here. -/
theorem arrayItems_writeString (t rest : Text) (bound room : Nat) :
    arrayItems (bound + 1) room (writeString t ++ rest) = (do
      let (item, rest) ← value bound room (writeString t ++ rest)
      match skipGaps false rest with
      | ',' :: rest => do
        let (items, rest) ← arrayItems bound room (skipGaps false rest)
        return (item :: items, rest)
      | ']' :: rest => return ([item], rest)
      | _ => none) := by
  obtain ⟨q, u, heq, hq⟩ := head_writeString t
  rw [heq]
  rcases hq with rfl | rfl <;> rfl

/-- **The items of a list are read back**, each from its own line. -/
theorem arrayItems_itemLine (ts : List Text) (rest : Text) {bound : Nat} (room : Nat)
    (hbound : ts.length + 1 < bound) :
    arrayItems bound room (skipGaps false (ts.flatMap itemLine ++ ']' :: rest)) =
      some (ts.map .text, rest) := by
  induction ts generalizing bound with
  | nil =>
    obtain ⟨bound, rfl⟩ := Nat.exists_eq_add_one_of_ne_zero (Nat.ne_zero_of_lt hbound)
    rfl
  | cons t ts ih =>
    obtain ⟨bound, rfl⟩ := Nat.exists_eq_add_one_of_ne_zero (Nat.ne_zero_of_lt hbound)
    rw [List.length_cons] at hbound
    let later := ts.flatMap itemLine ++ ']' :: rest
    have hline : skipGaps false ((t :: ts).flatMap itemLine ++ ']' :: rest) =
        writeString t ++ ',' :: '\n' :: later := by
      rw [← skipGaps_writeString t (',' :: '\n' :: later), List.flatMap_cons, itemLine]
      simp only [List.append_assoc]
      rfl
    have hitem : value bound room (writeString t ++ ',' :: '\n' :: later) =
        some (.text t, ',' :: '\n' :: later) :=
      value_writeString t (by omega) (by simp) (by simp)
    rw [hline, arrayItems_writeString, hitem]
    show (arrayItems bound room (skipGaps false later) >>= _) = _
    rw [ih (by omega)]
    rfl

/-- Every item of a list takes up a line. -/
theorem length_le_flatMap_itemLine (ts : List Text) :
    ts.length ≤ (ts.flatMap itemLine).length := by
  induction ts with
  | nil => exact Nat.le_refl 0
  | cons t ts ih =>
    have hline : 1 ≤ (itemLine t).length := by
      simp only [itemLine, List.length_append]
      exact Nat.le_add_left_of_le (by decide)
    rw [List.flatMap_cons, List.length_append, List.length_cons]
    omega

/-- What follows the bracket at the start of a list is read as its items. -/
theorem value_array {t rest : Text} {items : List Value} {bound room : Nat} (hroom : 0 < room)
    (h : ∀ room, arrayItems bound room (skipGaps false t) = some (items, rest)) :
    value (bound + 1) room ('[' :: t) = some (.array items, rest) := by
  obtain ⟨room, rfl⟩ := Nat.exists_eq_add_one_of_ne_zero (Nat.ne_of_gt hroom)
  show (arrayItems bound room (skipGaps false t) >>= _) = _
  rw [h room]
  rfl

/-- **A list of texts is read back**, on one line or on several. -/
theorem readsAs_list (ts : List Text) : ReadsAs (writeList ts) (.array (ts.map .text)) := by
  match ts with
  | [] =>
    -- the brackets alone, which need a bound of three
    refine ⟨⟨'[', _, rfl, rfl⟩, fun bound room rest hbound hroom => ?_⟩
    obtain ⟨bound, rfl⟩ : ∃ n, bound = n + 3 := ⟨bound - 3, by simp [writeList] at hbound; omega⟩
    exact value_array hroom fun _ => rfl
  | [t] =>
    -- one item is written between the brackets, on the line of the key
    refine ⟨⟨'[', writeString t ++ [']'], rfl, rfl⟩, fun bound room rest hbound hroom => ?_⟩
    have hlong : 3 ≤ (writeList [t]).length := by
      obtain ⟨q, u, heq, -⟩ := head_writeString t
      rw [writeList, heq]
      simp
    obtain ⟨bound, rfl⟩ : ∃ n, bound = n + 3 := ⟨bound - 3, by omega⟩
    show value (bound + 3) room ('[' :: (writeString t ++ [']'] ++ '\n' :: rest)) = _
    refine value_array hroom fun room => ?_
    rw [List.append_assoc, skipGaps_writeString, arrayItems_writeString,
      value_writeString t (by omega) (by simp) (by simp)]
    rfl
  | t :: u :: ts =>
    -- each item is on a line of its own, so that the bound is above the number of items
    refine ⟨⟨'[', '\n' :: ((t :: u :: ts).flatMap itemLine ++ [']']), rfl, rfl⟩,
      fun bound room rest hbound hroom => ?_⟩
    have hitems := length_le_flatMap_itemLine (t :: u :: ts)
    have hlength : (writeList (t :: u :: ts)).length =
        ((t :: u :: ts).flatMap itemLine).length + 3 := by
      show ("[\n".toList ++ (t :: u :: ts).flatMap itemLine ++ [']']).length = _
      rw [List.length_append, List.length_append]
      show 2 + _ + 1 = _
      omega
    obtain ⟨bound, rfl⟩ := Nat.exists_eq_add_one_of_ne_zero (Nat.ne_zero_of_lt hbound)
    show value (bound + 1) room
      ('[' :: '\n' :: ((t :: u :: ts).flatMap itemLine ++ [']'] ++ '\n' :: rest)) = _
    refine value_array hroom fun room => ?_
    rw [List.append_assoc]
    exact arrayItems_itemLine (t :: u :: ts) ('\n' :: rest) room (by omega)

end FileShell.Toml
