set_option autoImplicit false

/-! # Dates and moments

Days of the Gregorian calendar, carried back to the year 1, and moments: a day with a time and, if
it is known, the offset of its clock from universal time. A day or time outside the calendar is
refused with the first part that is wrong, from the year down to the second. Two moments with
offsets are the same when they name the same instant. -/

namespace Runbook

/-- A day of the calendar. -/
structure Date where
  year : Nat
  month : Nat
  day : Nat
deriving DecidableEq, Repr, Inhabited

/-- A day with a time. The offset is in minutes, and is absent when the clock is not known. -/
structure Moment where
  date : Date
  hour : Nat
  minute : Nat
  second : Nat
  micro : Nat
  offset : Option Int
deriving DecidableEq, Repr, Inhabited

/-- The part of a date or time that lies outside the calendar. -/
inductive CalendarFault where
  | year (n : Nat)
  | month
  | day
  | hour
  | minute
  | second
  | offset (minutes : Int)
deriving DecidableEq, Repr

namespace Calendar

/-- Digits with zeros before them up to a count. -/
def padded (width n : Nat) : String :=
  let digits := Nat.toDigits 10 n
  String.ofList (List.replicate (width - digits.length) '0' ++ digits)

/-- Whether February has 29 days. -/
def isLeap (year : Nat) : Bool := year % 4 == 0 && (year % 100 != 0 || year % 400 == 0)

/-- The days of a month. -/
def daysInMonth (year month : Nat) : Nat :=
  if month = 2 then if isLeap year then 29 else 28
  else if month = 4 || month = 6 || month = 9 || month = 11 then 30
  else 31

/-- The days before a year, from the year 1. -/
def daysBeforeYear (year : Nat) : Nat :=
  let y := year - 1
  y * 365 + y / 4 - y / 100 + y / 400

/-- The number of a day, from the first day of the year 1. -/
def dayNumber (d : Date) : Nat :=
  daysBeforeYear d.year
    + (List.range (d.month - 1)).foldl (fun n m => n + daysInMonth d.year (m + 1)) 0 + (d.day - 1)

/-- A length of time in minutes as days and seconds, the seconds never negative. -/
def durationParts (minutes : Int) : Int × Int := (Int.fdiv minutes 1440, Int.fmod minutes 1440 * 60)

/-- The text that builds a length of time. Parts that are zero are left out. -/
def durationSource (minutes : Int) : String :=
  let (days, seconds) := durationParts minutes
  let parts := (if days = 0 then [] else ["days=" ++ toString days])
    ++ (if seconds = 0 then [] else ["seconds=" ++ toString seconds])
  "datetime.timedelta(" ++ (if parts = [] then "0" else ", ".intercalate parts) ++ ")"

end Calendar

/-- The report of a date or time outside the calendar. -/
def CalendarFault.message : CalendarFault → String
  | .year n => "year " ++ toString n ++ " is out of range"
  | .month => "month must be in 1..12"
  | .day => "day is out of range for month"
  | .hour => "hour must be in 0..23"
  | .minute => "minute must be in 0..59"
  | .second => "second must be in 0..59"
  | .offset minutes =>
    "offset must be a timedelta strictly between -timedelta(hours=24) and timedelta(hours=24), not "
      ++ Calendar.durationSource minutes ++ "."

namespace Date

open Calendar

/-- A day, if the calendar has it. -/
def make (year month day : Nat) : Except CalendarFault Date :=
  if year = 0 || 9999 < year then .error (.year year)
  else if month = 0 || 12 < month then .error .month
  else if day = 0 || daysInMonth year month < day then .error .day
  else .ok ⟨year, month, day⟩

/-- The text of a day: year, month and day between hyphens. -/
def iso (d : Date) : String := padded 4 d.year ++ "-" ++ padded 2 d.month ++ "-" ++ padded 2 d.day

/-- The text that builds a day. -/
def source (d : Date) : String := s!"datetime.date({d.year}, {d.month}, {d.day})"

end Date

namespace Moment

open Calendar

/-- A moment, if the calendar has its day and the clock its time. -/
def make (year month day hour minute second micro : Nat) (offset : Option Int) :
    Except CalendarFault Moment :=
  match offset.filter fun o => o ≤ -1440 || 1440 ≤ o with
  | some o => .error (.offset o)
  | none =>
    match Date.make year month day with
    | .error e => .error e
    | .ok date =>
      if 23 < hour then .error .hour
      else if 59 < minute then .error .minute
      else if 59 < second then .error .second
      else .ok { date, hour, minute, second, micro, offset }

/-- An offset as sign, hours and minutes. -/
def offsetText (o : Int) : String :=
  (if o < 0 then "-" else "+") ++ padded 2 (o.natAbs / 60) ++ ":" ++ padded 2 (o.natAbs % 60)

/-- The text of a moment with a given mark between day and time. A fraction of a second is written
    with six digits, and only if there is one. -/
def isoWith (mark : String) (m : Moment) : String :=
  m.date.iso ++ mark ++ padded 2 m.hour ++ ":" ++ padded 2 m.minute ++ ":" ++ padded 2 m.second
    ++ (if m.micro = 0 then "" else "." ++ padded 6 m.micro)
    ++ (match m.offset with | some o => offsetText o | none => "")

/-- The text of a moment in data. -/
def iso (m : Moment) : String := m.isoWith "T"

/-- The text that builds a moment. Seconds and their fraction are left out when they are zero. -/
def source (m : Moment) : String :=
  let time := if m.micro ≠ 0 then [m.hour, m.minute, m.second, m.micro]
    else if m.second ≠ 0 then [m.hour, m.minute, m.second] else [m.hour, m.minute]
  let parts := ([m.date.year, m.date.month, m.date.day] ++ time).map toString
  let zone := match m.offset with
    | none => []
    | some 0 => ["tzinfo=datetime.timezone.utc"]
    | some o => ["tzinfo=datetime.timezone(" ++ durationSource o ++ ")"]
  "datetime.datetime(" ++ ", ".intercalate (parts ++ zone) ++ ")"

/-- The microseconds from the start of the year 1 to a moment, on its own clock. -/
def clock (m : Moment) : Int :=
  (((dayNumber m.date * 24 + m.hour) * 60 + m.minute) * 60 + m.second) * 1000000 + m.micro

/-- Whether two moments are the same: the same instant if both offsets are known, the same reading
    if neither is. -/
def same (a b : Moment) : Bool :=
  match a.offset, b.offset with
  | none, none => a.clock == b.clock
  | some o, some p => a.clock - o * 60000000 == b.clock - p * 60000000
  | _, _ => false

end Moment

namespace Calendar

/-- The value of some digits, if there are exactly as many as expected. -/
def digits? (width : Nat) (cs : List Char) : Option Nat :=
  if cs.length = width && cs.all Char.isDigit then
    some (cs.foldl (fun n c => n * 10 + (c.toNat - 48)) 0)
  else none

/-- Reads a day from the text that `Date.iso` writes. -/
def readDate? (s : String) : Option Date :=
  let cs := s.toList
  match digits? 4 (cs.take 4), digits? 2 ((cs.drop 5).take 2), digits? 2 (cs.drop 8) with
  | some y, some m, some d => (Date.make y m d).toOption
  | _, _, _ => none

/-- Reads an offset: nothing, or a sign, hours and minutes. -/
def readOffset? : List Char → Option (Option Int)
  | [] => some none
  | c :: rest =>
    match digits? 2 (rest.take 2), digits? 2 (rest.drop 3) with
    | some h, some m =>
      let o : Int := h * 60 + m
      if c = '-' then some (some (-o)) else if c = '+' then some (some o) else none
    | _, _ => none

/-- Reads a moment from the text that `Moment.iso` writes. -/
def readMoment? (s : String) : Option Moment :=
  let cs := s.toList
  match readDate? (String.ofList (cs.take 10)), digits? 2 ((cs.drop 11).take 2),
    digits? 2 ((cs.drop 14).take 2), digits? 2 ((cs.drop 17).take 2) with
  | some d, some h, some mi, some sec =>
    let rest := cs.drop 19
    let (micro, rest) := match rest with
      | '.' :: rest => ((digits? 6 (rest.take 6)).getD 0, rest.drop 6)
      | rest => (0, rest)
    match readOffset? rest with
    | some o => (Moment.make d.year d.month d.day h mi sec micro o).toOption
    | none => none
  | _, _, _, _ => none

end Calendar
end Runbook
