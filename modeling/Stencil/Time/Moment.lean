import Stencil.Time.Date

/-!
# Moments

A moment is a day with a time of day, to the microsecond. It may say how far the clock is ahead of
universal time; only then it is a point in time (`instant`). Moments without a zone are compared by
what the clock shows, moments with one by their points in time, and one of each cannot be compared.
-/

namespace Stencil

/-- By how much a clock is ahead of universal time, and how that is called. -/
structure Zone where
  minutes : Int
  name : Text
  /-- The clock is less than a day ahead or behind. -/
  minutes_lt : minutes.natAbs < 24 * 60
  deriving DecidableEq

/-- A day with a time of day. -/
structure Moment where
  date : Date
  hour : Nat
  minute : Nat
  second : Nat
  microsecond : Nat
  zone : Option Zone
  hour_lt : hour < 24
  minute_lt : minute < 60
  second_lt : second < 60
  microsecond_lt : microsecond < 1000000
  deriving DecidableEq

namespace Moment

/-- Why numbers are no moment; the first number that is wrong counts. -/
inductive Fault where
  | date (fault : Date.Fault)
  | hour
  | minute
  | second
  /-- The clock is a day or more ahead or behind. -/
  | zone (minutes : Int)
  deriving DecidableEq, Repr

/-- The zone of a clock that is so many minutes ahead. -/
def zoneAt (minutes : Int) (name : Text) : Except Fault Zone :=
  if h : minutes.natAbs < 24 * 60 then .ok ⟨minutes, name, h⟩ else .error (.zone minutes)

/-- The moment of a day with the given numbers; there are less than a million microseconds. -/
def ofNumbers (date : Date) (hour minute second : Nat) (microsecond : Fin 1000000)
    (zone : Option Zone) : Except Fault Moment :=
  if hh : hour < 24 then
    if hm : minute < 60 then
      if hs : second < 60 then
        .ok ⟨date, hour, minute, second, microsecond, zone, hh, hm, hs, microsecond.isLt⟩
      else .error .second
    else .error .minute
  else .error .hour

/-- The first moment of the calendar. -/
def first : Moment := ⟨.first, 0, 0, 0, 0, none, by decide, by decide, by decide, by decide⟩

/-- The last moment of the calendar. -/
def last : Moment := ⟨.last, 23, 59, 59, 999999, none, by decide, by decide, by decide, by decide⟩

/-- The microseconds that the clock shows, since the beginning of the calendar. -/
def clock (m : Moment) : Int :=
  (((m.date.number * 24 + m.hour) * 60 + m.minute) * 60 + m.second) * 1000000 + m.microsecond

/-- The microseconds of universal time, since the beginning of the calendar. -/
def instant (m : Moment) (zone : Zone) : Int := m.clock - zone.minutes * 60000000

/-- The moment one second later, if the calendar goes on so far. -/
def nextSecond? (m : Moment) : Option Moment :=
  let microsecond : Fin 1000000 := ⟨m.microsecond, m.microsecond_lt⟩
  let following :=
    if m.second < 59 then
      ofNumbers m.date m.hour m.minute (m.second + 1) microsecond m.zone
    else if m.minute < 59 then ofNumbers m.date m.hour (m.minute + 1) 0 microsecond m.zone
    else if m.hour < 23 then ofNumbers m.date (m.hour + 1) 0 0 microsecond m.zone
    else match m.date.next? with
      | some date => ofNumbers date 0 0 0 microsecond m.zone
      | none => .error .hour
  following.toOption

/-- The order of two moments, if both have a zone or neither has one. -/
def order? (a b : Moment) : Option Ordering :=
  match a.zone, b.zone with
  | none, none => some (compare a.clock b.clock)
  | some z, some w => some (compare (a.instant z) (b.instant w))
  | _, _ => none

/-- Whether two moments are the same: those that cannot be compared are not. -/
def same (a b : Moment) : Bool := a.order? b == some .eq

/-- By how much a clock is ahead, with its sign, in hours and minutes. -/
def writeZone (zone : Zone) : Text :=
  let minutes := zone.minutes.natAbs
  (if zone.minutes < 0 then '-' else '+') ::
    (Date.padded 2 (minutes / 60) ++ ':' :: Date.padded 2 (minutes % 60))

/-- A moment as date and time with a space between them. Microseconds are left out if there are
none. -/
def write (m : Moment) : Text :=
  m.date.write ++ ' ' :: (Date.padded 2 m.hour ++ ':' :: (Date.padded 2 m.minute ++
    ':' :: (Date.padded 2 m.second ++
      ((if m.microsecond = 0 then [] else '.' :: Date.padded 6 m.microsecond) ++
        (m.zone.map writeZone).getD []))))

/-- How a span of so many minutes is shown: whole days, which alone may be negative, and seconds. -/
def writeSpan (minutes : Int) : Text :=
  let days := minutes.fdiv (24 * 60)
  let seconds := minutes.fmod (24 * 60) * 60
  let parts :=
    (if days = 0 then [] else [Text.ofString "days=" ++ Text.ofInt days]) ++
      (if seconds = 0 then [] else [Text.ofString "seconds=" ++ Text.ofInt seconds])
  let inner := if parts.isEmpty then ['0'] else Text.join [',', ' '] parts
  Text.ofString "datetime.timedelta(" ++ inner ++ [')']

/-- The wording of a fault. -/
def Fault.message : Fault → String
  | .date fault => fault.message
  | .hour => "hour must be in 0..23"
  | .minute => "minute must be in 0..59"
  | .second => "second must be in 0..59"
  | .zone minutes =>
    let span := String.ofList (writeSpan minutes)
    "offset must be a timedelta strictly between -timedelta(hours=24) and timedelta(hours=24), "
      ++ s!"not {span}."

end Moment
end Stencil
