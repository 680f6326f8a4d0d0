import Bindery.Text.Basic

/-!
# Calendar values

A date of the Gregorian calendar, and a date with a time of day that may carry
an offset from universal time.  Both have an international form, which dates
print as, and a constructor form, which stands for them in emitted code.
-/

namespace Bindery

structure Date where
  year : Nat
  month : Nat
  day : Nat
deriving DecidableEq, Repr

structure DateTime where
  date : Date
  hour : Nat
  minute : Nat
  second : Nat
  microsecond : Nat
  offset : Option Int
deriving DecidableEq, Repr

namespace Date

open Text

def isLeapYear (year : Nat) : Bool :=
  (year % 4 == 0 && year % 100 != 0) || year % 400 == 0

def daysInMonth (year month : Nat) : Nat :=
  if month = 2 then (if isLeapYear year then 29 else 28)
  else if month ∈ [4, 6, 9, 11] then 30
  else 31

def isValid (date : Date) : Bool :=
  1 ≤ date.year && date.year ≤ 9999 && 1 ≤ date.month && date.month ≤ 12 && 1 ≤ date.day &&
    date.day ≤ daysInMonth date.year date.month

def iso (date : Date) : String :=
  padded 4 date.year ++ "-" ++ padded 2 date.month ++ "-" ++ padded 2 date.day

def literal (date : Date) : String :=
  "datetime.date(" ++ join ", " [decimal date.year, decimal date.month, decimal date.day] ++ ")"

end Date

namespace DateTime

open Text

def isValid (moment : DateTime) : Bool :=
  moment.date.isValid && moment.hour < 24 && moment.minute < 60 && moment.second < 60

/-- The offset in hours and minutes, with seconds only if there are any. -/
def offsetText (offset : Int) : String :=
  let total := offset.natAbs
  let seconds := if total % 60 = 0 then "" else ":" ++ padded 2 (total % 60)
  (if offset < 0 then "-" else "+") ++ padded 2 (total / 3600) ++ ":" ++
    padded 2 (total / 60 % 60) ++ seconds

/-- The international form, with a chosen separator between date and time. -/
def iso (separator : String) (moment : DateTime) : String :=
  let fraction := if moment.microsecond = 0 then "" else "." ++ padded 6 moment.microsecond
  let offset := match moment.offset with
    | none => ""
    | some offset => offsetText offset
  moment.date.iso ++ separator ++ padded 2 moment.hour ++ ":" ++ padded 2 moment.minute ++ ":" ++
    padded 2 moment.second ++ fraction ++ offset

/-- The constructor form of an offset, counted in whole days and the seconds after them. -/
def offsetLiteral (offset : Int) : String :=
  if offset = 0 then "datetime.timezone.utc"
  else
    let days := offset.fdiv 86400
    let seconds := offset.fmod 86400
    let parts := (if days = 0 then [] else ["days=" ++ integer days]) ++
      (if seconds = 0 then [] else ["seconds=" ++ integer seconds])
    "datetime.timezone(datetime.timedelta(" ++ join ", " parts ++ "))"

/-- The constructor form; seconds and microseconds are left out from the end when zero. -/
def literal (moment : DateTime) : String :=
  let clock :=
    if moment.microsecond ≠ 0 then [decimal moment.second, decimal moment.microsecond]
    else if moment.second ≠ 0 then [decimal moment.second]
    else []
  let zone := match moment.offset with
    | none => []
    | some offset => ["tzinfo=" ++ offsetLiteral offset]
  let numbers := [decimal moment.date.year, decimal moment.date.month, decimal moment.date.day,
    decimal moment.hour, decimal moment.minute]
  "datetime.datetime(" ++ join ", " (numbers ++ clock ++ zone) ++ ")"

end DateTime

end Bindery
