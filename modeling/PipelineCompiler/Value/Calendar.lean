namespace PipelineCompiler

/-!
# Dates and timestamps

Days of the proleptic Gregorian calendar and moments of a day, with their two standard texts.

* `Date`, `Timestamp` — the values; a timestamp may carry its distance to universal time;
* `Date.make`, `Timestamp.make` — only real days, hours, minutes and seconds, or the reason why
  there is no such day or moment;
* `Date.text`, `Timestamp.text` — the ISO 8601 form;
* `Timestamp.instant` — microseconds since the first day, to compare moments with a zone.
-/

/-- A day. -/
structure Date where
  year : Nat
  month : Nat
  day : Nat
deriving Repr, DecidableEq, Inhabited

/-- A moment, with its distance to universal time in minutes when it is known. -/
structure Timestamp where
  date : Date
  hour : Nat
  minute : Nat
  second : Nat
  microsecond : Nat
  offset : Option Int
deriving Repr, DecidableEq, Inhabited

/-- Every fourth year, but of the centuries only every fourth. -/
def isLeapYear (year : Nat) : Bool := year % 4 = 0 && (year % 100 ≠ 0 || year % 400 = 0)

/-- The number of days of a month. -/
def daysInMonth (year month : Nat) : Nat :=
  if month = 2 then (if isLeapYear year then 29 else 28)
  else if month = 4 ∨ month = 6 ∨ month = 9 ∨ month = 11 then 30
  else 31

/-- The first of some reasons that holds. -/
def firstReason? (reasons : List (Bool × String)) : Option String :=
  (reasons.find? (·.1)).map (·.2)

/-- A day, or the reason why there is none with that year, month and number. -/
def Date.make (year month day : Nat) : Except String Date :=
  let reason? := firstReason? [
    (year < 1 || 9999 < year, s!"year {year} is out of range"),
    (month < 1 || 12 < month, "month must be in 1..12"),
    (day < 1 || daysInMonth year month < day, "day is out of range for month")]
  match reason? with
  | some reason => .error reason
  | none => .ok ⟨year, month, day⟩

/-- A span of minutes by its days and seconds; days are counted down so that the seconds are never
    negative. -/
def spanText (minutes : Int) : String :=
  let days := minutes.fdiv (24 * 60)
  let seconds := minutes.fmod (24 * 60) * 60
  let parts :=
    (if days = 0 then [] else [s!"days={days}"]) ++
      (if seconds = 0 then [] else [s!"seconds={seconds}"])
  "datetime.timedelta(" ++ ", ".intercalate parts ++ ")"

/-- The reason why there is no zone at a distance to universal time: it is a day or more. -/
def offsetReason? (offset : Option Int) : Option String :=
  if offset.all fun o => o.natAbs < 24 * 60 then none
  else some <| "offset must be a timedelta strictly between -timedelta(hours=24) and " ++
    s!"timedelta(hours=24), not {spanText (offset.getD 0)}."

/-- The reason why there is no such time of day. -/
def clockReason? (hour minute second : Nat) : Option String :=
  firstReason? [
    (23 < hour, "hour must be in 0..23"),
    (59 < minute, "minute must be in 0..59"),
    (59 < second, "second must be in 0..59")]

/-- A moment, or the reason why there is none: its zone is looked at before its day, and its day
    before its time. -/
def Timestamp.make (date : Except String Date) (hour minute second microsecond : Nat)
    (offset : Option Int) : Except String Timestamp := do
  if let some reason := offsetReason? offset then throw reason
  let date ← date
  if let some reason := clockReason? hour minute second then throw reason
  pure ⟨date, hour, minute, second, microsecond, offset⟩

/-- A number with zeros in front up to a width. -/
def padded (width n : Nat) : String :=
  let digits := toString n
  "".pushn '0' (width - digits.length) ++ digits

/-- The text `2001-02-03`. -/
def Date.text (d : Date) : String :=
  padded 4 d.year ++ "-" ++ padded 2 d.month ++ "-" ++ padded 2 d.day

/-- The text `04:05:06.000007+08:00`; a whole second has no fraction, and a moment without a
    zone no distance. -/
def Timestamp.clock (t : Timestamp) : String :=
  let time := padded 2 t.hour ++ ":" ++ padded 2 t.minute ++ ":" ++ padded 2 t.second
  let fraction := if t.microsecond = 0 then "" else "." ++ padded 6 t.microsecond
  let zone :=
    match t.offset with
    | none => ""
    | some o =>
      (if o < 0 then "-" else "+") ++ padded 2 (o.natAbs / 60) ++ ":" ++ padded 2 (o.natAbs % 60)
  time ++ fraction ++ zone

/-- The date and the clock with a mark between them. -/
def Timestamp.text (between : String) (t : Timestamp) : String :=
  t.date.text ++ between ++ t.clock

/-- The number of days before a day. -/
def Date.ordinal (d : Date) : Nat :=
  let y := d.year - 1
  let months := (List.range (d.month - 1)).foldl (fun sum m => sum + daysInMonth d.year (m + 1)) 0
  365 * y + y / 4 - y / 100 + y / 400 + months + d.day

/-- Microseconds since the first day; a known zone is taken off. -/
def Timestamp.instant (t : Timestamp) : Int :=
  let minutes : Int := ((t.date.ordinal * 24 + t.hour) * 60 + t.minute : Nat) - t.offset.getD 0
  (minutes * 60 + t.second) * 1000000 + t.microsecond

end PipelineCompiler
