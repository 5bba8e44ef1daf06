import Stencil.Text.Digit
import Stencil.Text.Quoted
import Stencil.Value.Basic
import Stencil.Yaml.Fault

/-!
# Timestamps

A timestamp is a date, year first, or a date and a time of day. The time may have a fraction of a
second and may say in which zone it is meant. A date alone has the shape of a timestamp only if
month and day have two digits; a time goes with shorter ones too.

A fraction is rounded to microseconds by its seventh digit. If that gives a whole second, it is the
next one.
-/

namespace Stencil
namespace Yaml

/-- A time of day as it is written. -/
structure WrittenTime where
  hour : Nat
  minute : Nat
  second : Nat
  /-- The digits after the point. -/
  fraction : Text
  /-- By how many minutes the clock is ahead, and how that is written. -/
  zone : Option (Int × Text)

/-- A timestamp as it is written. -/
structure Timestamp where
  year : Nat
  month : Nat
  day : Nat
  /-- Whether month and day have two digits. -/
  isFull : Bool
  time : Option WrittenTime

namespace Timestamp

/-- The number that a text begins with, of at least and at most so many digits, with the number of
digits and what follows them. -/
def number? (least most : Nat) (t : Text) : Option (Nat × Nat × Text) :=
  let digits := (t.take most).takeWhile Char.isDigit
  if digits.length < least then none
  else (Text.natural? digits).map fun n => (n, digits.length, t.drop digits.length)

/-- What follows a character. -/
def after? (c : Char) : Text → Option Text
  | d :: rest => if d = c then some rest else none
  | [] => none

/-- The zone that ends a timestamp, after blanks; `none` if something else does. -/
def zone? (t : Text) : Option (Option (Int × Text)) :=
  let written := t.dropWhile fun c => c == ' ' || c == '\t'
  if t.isEmpty then some none
  else match written with
    | ['Z'] => some (some (0, written))
    | sign :: rest =>
      if sign != '+' && sign != '-' then none
      else (number? 1 2 rest).bind fun (hours, _, rest) =>
        let minutes := if rest.isEmpty then some (0, 0, rest)
          else (after? ':' rest).bind (number? 2 2)
        minutes.bind fun (minutes, _, rest) =>
          let ahead : Int := hours * 60 + minutes
          if rest.isEmpty then some (some (if sign = '-' then -ahead else ahead, written)) else none
    | [] => none

/-- The time of day that ends a timestamp. -/
def time? (t : Text) : Option WrittenTime :=
  (number? 1 2 t).bind fun (hour, _, t) =>
    (after? ':' t).bind fun t => (number? 2 2 t).bind fun (minute, _, t) =>
      (after? ':' t).bind fun t => (number? 2 2 t).bind fun (second, _, t) =>
        let fraction := if t.head? == some '.' then (t.drop 1).takeWhile Char.isDigit else []
        let rest := if t.head? == some '.' then t.drop (fraction.length + 1) else t
        (zone? rest).map fun zone => ⟨hour, minute, second, fraction, zone⟩

/-- The timestamp that a text writes. -/
def ofText? (t : Text) : Option Timestamp :=
  (number? 4 4 t).bind fun (year, _, t) =>
    (after? '-' t).bind fun t => (number? 1 2 t).bind fun (month, monthDigits, t) =>
      (after? '-' t).bind fun t => (number? 1 2 t).bind fun (day, dayDigits, t) =>
        let isFull := monthDigits == 2 && dayDigits == 2
        if t.isEmpty then some ⟨year, month, day, isFull, none⟩
        else
          let blanks := t.takeWhile fun c => c == ' ' || c == '\t'
          let rest :=
            if t.head? == some 'T' || t.head? == some 't' then some (t.drop 1)
            else if blanks.isEmpty then none
            else some (t.drop blanks.length)
          (rest.bind time?).map fun time => ⟨year, month, day, isFull, some time⟩

/-- Whether a text has the shape of a timestamp without being said to be one. -/
def isShape (t : Text) : Bool :=
  match ofText? t with
  | some timestamp => timestamp.isFull || timestamp.time.isSome
  | none => false

/-- A fraction of a second in microseconds, of which there may be a million. -/
def microseconds (fraction : Text) : Nat :=
  let digits := fraction.filterMap Text.decimalValue?
  let six := digits.take 6
  Text.ofDigits 10 (six ++ List.replicate (6 - six.length) 0) +
    (if (digits.drop 6).head?.any (· > 4) then 1 else 0)

/-- The moment that a date and a time of day make. -/
def moment (date : Except Moment.Fault Date) (time : WrittenTime) : Except Fault Moment :=
  let micros := microseconds time.fraction
  let zone := match time.zone with
    | none => Except.ok none
    | some (minutes, name) => (Moment.zoneAt minutes name).map some
  let made := zone.bind fun zone => date.bind fun date =>
    Moment.ofNumbers date time.hour time.minute time.second
      (if h : micros < 1000000 then ⟨micros, h⟩ else 0) zone
  match made with
  | .error fault => .error (.noMoment fault)
  | .ok m =>
    if micros < 1000000 then .ok m
    else match m.nextSecond? with
      | some m => .ok m
      | none => .error .afterCalendar

/-- The value of a timestamp. -/
def value (timestamp : Timestamp) : Except Fault Value :=
  let date := (Date.ofNumbers timestamp.year timestamp.month timestamp.day).mapError .date
  match timestamp.time with
  | none => (date.map .date).mapError .noMoment
  | some time => (moment date time).map .moment

end Timestamp
end Yaml
end Stencil
