import Stencil.Text.Quoted

/-!
# Text as bytes

Files and standard input are bytes in UTF-8. `decode` reads them, or names the first row of bytes
that is no character: which bytes, where, and whether they cannot start a character, are cut off
by a byte that cannot continue it, or are cut off by the end. `encode` writes them.
-/

namespace Stencil
namespace Utf8

/-- What is wrong with a row of bytes. -/
inductive Reason where
  | invalidStart
  | invalidContinuation
  | unexpectedEnd
  deriving DecidableEq, Repr

/-- The first bytes, from `start` up to but not including `stop`, that are no character. -/
structure Fault where
  reason : Reason
  firstByte : UInt8
  start : Nat
  stop : Nat
  deriving DecidableEq, Repr

/-- The number of bytes that a leading byte announces. -/
def announced? (b : Nat) : Option Nat :=
  if b < 0x80 then some 1
  else if b < 0xC2 then none
  else if b < 0xE0 then some 2
  else if b < 0xF0 then some 3
  else if b < 0xF5 then some 4
  else none

/-- Whether `next` may follow the leading byte. The narrower ranges after `E0`, `ED`, `F0` and
`F4` exclude longer spellings, surrogates and numbers beyond the last character. -/
def mayFollow (lead next : Nat) : Bool :=
  let least := if lead = 0xE0 then 0xA0 else if lead = 0xF0 then 0x90 else 0x80
  let greatest := if lead = 0xED then 0x9F else if lead = 0xF4 then 0x8F else 0xBF
  least ≤ next && next ≤ greatest

/-- A byte that continues a character. -/
def isContinuation (b : Nat) : Bool := 0x80 ≤ b && b ≤ 0xBF

/-- How many of the bytes after the leading byte continue its character. -/
def continued (lead width : Nat) (rest : List UInt8) : Nat :=
  match (rest.take (width - 1)).map UInt8.toNat with
  | [] => 0
  | next :: more => if mayFollow lead next then 1 + (more.takeWhile isContinuation).length else 0

/-- The number that a leading byte and its continuation bytes spell. -/
def spelled (lead width : Nat) (rest : List UInt8) : Nat :=
  let high := if width = 1 then lead else lead % Nat.pow 2 (7 - width)
  (rest.take (width - 1)).foldl (fun n b => n * 64 + b.toNat % 64) high

/-- Reads bytes as characters, `place` bytes having been read. -/
def decodeFrom (place : Nat) : List UInt8 → Except Fault Text
  | [] => .ok []
  | b :: rest =>
    let lead := b.toNat
    match announced? lead with
    | none => .error ⟨.invalidStart, b, place, place + 1⟩
    | some width =>
      let good := continued lead width rest
      if good + 1 < width then
        let reason := if rest.length ≤ good then Reason.unexpectedEnd else .invalidContinuation
        .error ⟨reason, b, place, place + 1 + good⟩
      else
        (decodeFrom (place + width) (rest.drop (width - 1))).map
          (Char.ofNat (spelled lead width rest) :: ·)
  termination_by bytes => bytes.length
  decreasing_by simp only [List.length_cons, List.length_drop]; omega

/-- The text that bytes spell, or the first bytes that spell nothing. -/
def decode (bytes : List UInt8) : Except Fault Text := decodeFrom 0 bytes

/-- The bytes of a text. -/
def encode (t : Text) : List UInt8 := t.flatMap String.utf8EncodeChar

/-- The wording of the reason. -/
def Reason.message : Reason → String
  | .invalidStart => "invalid start byte"
  | .invalidContinuation => "invalid continuation byte"
  | .unexpectedEnd => "unexpected end of data"

/-- The wording of a fault: one byte is shown, more are counted. -/
def Fault.message (fault : Fault) : String :=
  let reason := fault.reason.message
  let start := fault.start
  if fault.stop = start + 1 then
    let byte := String.ofList (Text.hexadecimal 2 fault.firstByte.toNat)
    s!"'utf-8' codec can't decode byte 0x{byte} in position {start}: {reason}"
  else
    let last := fault.stop - 1
    s!"'utf-8' codec can't decode bytes in position {start}-{last}: {reason}"

end Utf8
end Stencil
