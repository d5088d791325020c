import FileShell.Text.Basic

/-! # Dates and times

A moment is a date of the Gregorian calendar, reckoned back to before its introduction, with a time
of day. It is shown with the day of the week, which is counted from the days since the first of
March of the year 0. -/

namespace FileShell

/-- **A date and a time of day.** -/
structure Moment where
  year : Int
  month : Nat
  day : Nat
  hour : Nat
  minute : Nat
  second : Nat
deriving DecidableEq, Repr

namespace Moment

/-- Whether a year has a twenty-ninth of February. -/
def isLeap (year : Int) : Bool := year % 4 = 0 && (year % 100 ≠ 0 || year % 400 = 0)

/-- The days of a month. -/
def daysInMonth (year : Int) (month : Nat) : Nat :=
  if month = 2 then if isLeap year then 29 else 28
  else if [4, 6, 9, 11].contains month then 30
  else 31

/-- The first and the last year that are supported. -/
def years : Int × Int := (-262143, 262142)

/-- **Whether a moment exists**: a day of the calendar, and a time without leap seconds. -/
def isValid (m : Moment) : Bool :=
  years.1 ≤ m.year && m.year ≤ years.2 && 1 ≤ m.month && m.month ≤ 12 && 1 ≤ m.day &&
    m.day ≤ daysInMonth m.year m.month && m.hour < 24 && m.minute < 60 && m.second < 60

/-- The days from the first of March of the year 0 to a date. Years are taken to begin in March, so
that the leap day comes last. -/
def dayNumber (m : Moment) : Int :=
  let year := if m.month ≤ 2 then m.year - 1 else m.year
  let month := if m.month ≤ 2 then m.month + 9 else m.month - 3
  year * 365 + year.fdiv 4 - year.fdiv 100 + year.fdiv 400 + ((153 * month + 2) / 5 : Nat) +
    (m.day : Int) - 1

/-- The names of the days of the week, from the one of the first of March of the year 0 on. -/
def dayNames : List Text :=
  ["Wed".toList, "Thu".toList, "Fri".toList, "Sat".toList, "Sun".toList, "Mon".toList,
    "Tue".toList]

/-- The names of the months. -/
def monthNames : List Text :=
  ["Jan".toList, "Feb".toList, "Mar".toList, "Apr".toList, "May".toList, "Jun".toList,
    "Jul".toList, "Aug".toList, "Sep".toList, "Oct".toList, "Nov".toList, "Dec".toList]

/-- A year with at least four digits; one outside the years 0 to 9999 has a sign. -/
def yearText (year : Int) : Text :=
  let digits := Text.padded 4 year.natAbs
  if year < 0 then '-' :: digits else if 9999 < year then '+' :: digits else digits

/-- **A moment as it is shown**: the day of the week, the date, the time. -/
def text (m : Moment) : Text :=
  dayNames.getD (m.dayNumber % 7).toNat [] ++ ", ".toList ++ Text.ofNat m.day ++ ' ' ::
    monthNames.getD (m.month - 1) [] ++ ' ' :: yearText m.year ++ ' ' ::
    Text.padded 2 m.hour ++ ':' :: Text.padded 2 m.minute ++ ':' :: Text.padded 2 m.second

end Moment

end FileShell
