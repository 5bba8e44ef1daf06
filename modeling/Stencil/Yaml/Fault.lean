import Stencil.Number.Numeral
import Stencil.Time.Moment

/-!
# What can be wrong with a YAML document

Most faults make a text no document at all: `malformed`. The others are of a document whose shape is
right, but of which a part has no value: a number without digits or with too many of them, a date
that the calendar does not have, an escape that names no character, a key that cannot be looked up.
-/

namespace Stencil
namespace Yaml

/-- Why a text has no value. -/
inductive Fault where
  /-- The text is no document. -/
  | malformed
  /-- Code points spell no integer of a base. -/
  | noInteger (base : Nat) (codes : List Nat)
  /-- Code points spell no floating-point number. -/
  | noDecimal (codes : List Nat)
  /-- A number is empty. -/
  | noNumber
  /-- A word is said to be a truth value and is none. -/
  | noTruth
  /-- A decimal integer has too many digits to be read. -/
  | tooLong (digits : Nat)
  /-- An integer has too many digits to be shown in the message about a repeated key. -/
  | unwritable
  /-- A timestamp names no date or time of day. -/
  | noMoment (fault : Moment.Fault)
  /-- A timestamp is rounded to a second after the last day of the calendar. -/
  | afterCalendar
  /-- An escape names a number beyond the last character. -/
  | noCharacter
  /-- An escape names a number of more than 31 bits. -/
  | oversizedEscape
  /-- A key holds a list or a map. -/
  | unusableKey
  /-- Collections are nested too deeply. -/
  | tooDeep
  deriving DecidableEq, Repr

namespace Fault

/-- Whether the fault is that something written in the document has no value of its kind. -/
def isBadValue : Fault → Bool
  | .noInteger _ _ => true
  | .noDecimal _ => true
  | .noMoment _ => true
  | .tooLong _ => true
  | .unwritable => true
  | .noCharacter => true
  | _ => false

/-- The wording of a fault. -/
def message : Fault → String
  | .malformed => "malformed document"
  | .noInteger base codes =>
    let text := String.ofList ((Text.quotedPoints codes).take 200)
    s!"invalid literal for int() with base {base}: {text}"
  | .noDecimal codes =>
    let text := String.ofList (Text.quotedPoints codes)
    s!"could not convert string to float: {text}"
  | .noNumber => "a number is empty"
  | .noTruth => "a word is no truth value"
  | .noMoment fault => fault.message
  | .afterCalendar => "date value out of range"
  | .tooLong digits => Numeral.Fault.message (.tooLong digits)
  | .unwritable => Numeral.unwritable
  | .noCharacter => "chr() arg not in range(0x110000)"
  | .oversizedEscape => "an escape names a number of more than 31 bits"
  | .unusableKey => "a key holds a list or a map"
  | .tooDeep => "collections are nested too deeply"

end Fault
end Yaml
end Stencil
