import FileShell.Calendar
import FileShell.Number.Decimal
import FileShell.Toml.Strings
import FileShell.Toml.Value

/-! # Numbers, dates and times of TOML

Integers are signed words of sixty-four bits, in decimal digits or, behind a mark, in digits of
another base. A number with a fraction or an exponent that is beyond binary64 is refused if it is
above zero, and stands for the infinity below all numbers otherwise. Dates must be in the
calendar. -/

namespace FileShell.Toml

/-! ## Digits -/

/-- Whether a character is a decimal digit. -/
def isDigit (c : Char) : Bool := c.isDigit

/-- Further digits, each perhaps behind one underscore, and what follows them. -/
def moreDigits (ok : Char → Bool) : Text → Text × Text
  | [] => ([], [])
  | '_' :: c :: rest =>
    if ok c then
      let (digits, after) := moreDigits ok rest
      (c :: digits, after)
    else ([], '_' :: c :: rest)
  | c :: rest =>
    if ok c then
      let (digits, after) := moreDigits ok rest
      (c :: digits, after)
    else ([], c :: rest)

/-- **Digits with underscores between them**, at least one. -/
def digits? (ok : Char → Bool) : Text → Option (Text × Text)
  | [] => none
  | c :: rest =>
    if ok c then
      let (digits, after) := moreDigits ok rest
      some (c :: digits, after)
    else none

/-- The digits before a fraction: none of them but a lone one may be a zero at the start. -/
def wholeDigits? : Text → Option (Text × Text)
  | '0' :: rest => some (['0'], rest)
  | t => digits? isDigit t

/-- The sign of a number, and what follows it. -/
def sign : Text → Bool × Text
  | '-' :: rest => (true, rest)
  | '+' :: rest => (false, rest)
  | t => (false, t)

/-- The number that digits of a base stand for. -/
def numberOf (base : Nat) (digits : Text) : Nat :=
  digits.foldl (fun n c => base * n + (hexDigit? c).getD 0) 0

/-! ## Numbers -/

/-- An integer, if it is a signed word of sixty-four bits. -/
def word? (i : Int) : Option Value :=
  if Int64.minValue.toInt ≤ i ∧ i ≤ Int64.maxValue.toInt then some (.integer i) else none

/-- An integer in another base than ten. -/
def basedInteger (base : Nat) (ok : Char → Bool) (t : Text) : Option (Value × Text) := do
  let (digits, rest) ← digits? ok t
  return (← word? (numberOf base digits), rest)

/-- The digits of a fraction, if there is one. -/
def fraction? : Text → Option (Text × Text)
  | '.' :: rest => digits? isDigit rest
  | _ => none

/-- An exponent, if there is one. -/
def exponent? : Text → Option (Int × Text)
  | c :: rest =>
    if c = 'e' ∨ c = 'E' then do
      let (negative, unsigned) := sign rest
      let (digits, rest) ← digits? isDigit unsigned
      return (if negative then -(numberOf 10 digits : Int) else numberOf 10 digits, rest)
    else none
  | [] => none

/-- The fraction and the exponent of a number, if it has one of them. -/
def afterWhole? (t : Text) : Option ((Text × Int) × Text) :=
  match fraction? t with
  | some (digits, rest) =>
    match exponent? rest with
    | some (exponent, rest) => some ((digits, exponent), rest)
    | none => some ((digits, 0), rest)
  | none => (exponent? t).map fun (exponent, rest) => (([], exponent), rest)

/-- The number that digits before and after a point and an exponent stand for. -/
def decimal (negative : Bool) (whole fraction : Text) (exponent : Int) : Decimal :=
  ⟨negative, numberOf 10 (whole ++ fraction), exponent - fraction.length⟩

/-- A number that is not written in digits, and what follows it. -/
def namedNumber? : Text → Option Text
  | 'i' :: 'n' :: 'f' :: rest => some rest
  | 'n' :: 'a' :: 'n' :: rest => some rest
  | _ => none

/-- **A number.** -/
def number : Text → Option (Value × Text)
  | '0' :: 'x' :: rest => basedInteger 16 (fun c => (hexDigit? c).isSome) rest
  | '0' :: 'o' :: rest => basedInteger 8 (fun c => '0' ≤ c && c ≤ '7') rest
  | '0' :: 'b' :: rest => basedInteger 2 (fun c => c = '0' || c = '1') rest
  | t =>
    let (negative, unsigned) := sign t
    match namedNumber? unsigned with
    | some rest => some (.fractional, rest)
    | none => do
      let (digits, rest) ← wholeDigits? unsigned
      match afterWhole? rest with
      | some ((fraction, exponent), rest) =>
        let d := decimal negative digits fraction exponent
        if d.isBeyond && !d.negative then none else return (.fractional, rest)
      | none =>
        let n := numberOf 10 digits
        return (← word? (if negative then -n else n), rest)

/-! ## Dates and times -/

/-- A number of two digits, and what follows it. -/
def twoDigits? : Text → Option (Nat × Text)
  | a :: b :: rest => if isDigit a && isDigit b then some (numberOf 10 [a, b], rest) else none
  | _ => none

/-- What follows a character that has to come next. -/
def expect (c : Char) : Text → Option Text
  | [] => none
  | d :: rest => if c = d then some rest else none

/-- What follows a date. -/
def afterDate? (t : Text) : Option Text := do
  let (century, t) ← twoDigits? t
  let (year, t) ← twoDigits? t
  let (month, t) ← twoDigits? (← expect '-' t)
  let (day, t) ← twoDigits? (← expect '-' t)
  let date : Moment := ⟨(100 * century + year : Nat), month, day, 0, 0, 0⟩
  if date.isValid then some t else none

/-- What follows the fraction of a second, if there is one, and the text itself otherwise. -/
def afterSecondFraction : Text → Text
  | '.' :: c :: rest => if isDigit c then rest.dropWhile isDigit else '.' :: c :: rest
  | t => t

/-- What follows an hour and a minute, with the hour and minute in their ranges. -/
def afterMinutes? (t : Text) : Option Text := do
  let (hour, t) ← twoDigits? t
  let (minute, t) ← twoDigits? (← expect ':' t)
  if hour < 24 ∧ minute < 60 then some t else none

/-- What follows a time of day. -/
def afterTime? (t : Text) : Option Text := do
  let (second, t) ← twoDigits? (← expect ':' (← afterMinutes? t))
  if second ≤ 60 then some (afterSecondFraction t) else none

/-- What follows the offset of a time, if there is one. -/
def afterOffset? : Text → Option Text
  | c :: rest =>
    if c = 'Z' ∨ c = 'z' then some rest
    else if c = '+' ∨ c = '-' then afterMinutes? rest
    else none
  | [] => none

/-- What follows the time of a date, if there is one. -/
def afterDateTime? : Text → Option Text
  | c :: rest =>
    if c = 'T' ∨ c = 't' ∨ c = ' ' then do
      let t ← afterTime? rest
      return (afterOffset? t).getD t
    else none
  | [] => none

/-- What follows a date, a time or both. -/
def afterMoment? (t : Text) : Option Text :=
  match afterDate? t with
  | some rest => some ((afterDateTime? rest).getD rest)
  | none => afterTime? t

/-! ## All values of one word -/

/-- **A value that is no array and no table.** -/
def scalar (t : Text) : Option (Value × Text) :=
  match anyString t with
  | some (text, rest) => some (.text text, rest)
  | none =>
    match t with
    | 't' :: 'r' :: 'u' :: 'e' :: rest => some (.boolean true, rest)
    | 'f' :: 'a' :: 'l' :: 's' :: 'e' :: rest => some (.boolean false, rest)
    | _ =>
      match afterMoment? t with
      | some rest => some (.moment, rest)
      | none => number t

end FileShell.Toml
