/-!
# Text

Every text that the library reads or writes is a list of characters, so that a position is an
index, a piece is a sublist, and a statement about text is a statement about lists. `String`
appears only where a message is composed for a reader.

A surrogate is a code point without a character, but an escape can name one. What escapes spell is
therefore a row of code points, and a text only if there is no surrogate among them (`ofPoints?`).

Whitespace is the set `isBlank` of twenty-nine characters; trimming, splitting at whitespace and
the gaps between tokens all use this one set.
-/

namespace Stencil

/-- A text is the list of its characters; positions in it count characters. -/
abbrev Text := List Char

namespace Text

/-- The characters of a string. -/
def ofString (s : String) : Text := s.toList

/-- A natural number in decimal. -/
def ofNat (n : Nat) : Text := (Nat.repr n).toList

/-- An integer in decimal, with a leading `-` when it is negative. -/
def ofInt : Int → Text
  | .ofNat n => ofNat n
  | .negSucc n => '-' :: ofNat (n + 1)

/-- Whitespace: the ASCII separators, the next-line and no-break spaces, and the Unicode
separators. -/
def isBlank (c : Char) : Bool :=
  let n := c.toNat
  (0x09 ≤ n && n ≤ 0x0D) || (0x1C ≤ n && n ≤ 0x20) || n == 0x85 || n == 0xA0 || n == 0x1680 ||
    (0x2000 ≤ n && n ≤ 0x200A) || n == 0x2028 || n == 0x2029 || n == 0x202F || n == 0x205F ||
    n == 0x3000

/-- Whether a text holds nothing but whitespace. -/
def allBlank (t : Text) : Bool := t.all isBlank

/-- The text without its leading whitespace. -/
def trimStart (t : Text) : Text := t.dropWhile isBlank

/-- The text without its trailing whitespace. -/
def trimEnd (t : Text) : Text := (t.reverse.dropWhile isBlank).reverse

/-- The text without whitespace at either end. -/
def trim (t : Text) : Text := trimEnd (trimStart t)

/-- The first run of characters that are not whitespace; empty if there is none. -/
def firstWord (t : Text) : Text := (trimStart t).takeWhile (!isBlank ·)

/-- The index of the first occurrence of `needle` in the rest of a text whose first `n` characters
have been passed. -/
def indexFrom? (needle : Text) (n : Nat) : Text → Option Nat
  | [] => if needle.isEmpty then some n else none
  | c :: rest => if needle.isPrefixOf (c :: rest) then some n else indexFrom? needle (n + 1) rest

/-- The index of the first occurrence of `needle`. -/
def indexOf? (needle hay : Text) : Option Nat := indexFrom? needle 0 hay

/-- Whether `needle` occurs anywhere. -/
def occursIn (needle hay : Text) : Bool := (indexOf? needle hay).isSome

/-- The pieces between the occurrences of a separator; always one more than there are
separators. -/
def fields (separator : Char) : Text → List Text
  | [] => [[]]
  | c :: rest =>
    if c = separator then [] :: fields separator rest
    else match fields separator rest with
      | [] => [[c]]
      | field :: more => (c :: field) :: more

/-- The pieces joined with a separator between each two. -/
def join (separator : Text) (pieces : List Text) : Text := List.intercalate separator pieces

/-- Small ASCII letters for capital ones; every other character stays. -/
def lowerAscii (t : Text) : Text := t.map Char.toLower

/-- Whether a text is one of several words. -/
def isOneOf (words : List String) (t : Text) : Bool := words.any fun w => w.toList == t

/-- Line ends written with a carriage return, alone or before a line feed, become line feeds. -/
def normaliseLineEnds : Text → Text
  | '\r' :: '\n' :: rest => '\n' :: normaliseLineEnds rest
  | '\r' :: rest => '\n' :: normaliseLineEnds rest
  | c :: rest => c :: normaliseLineEnds rest
  | [] => []

/-- Whether a code point is a surrogate. -/
def isSurrogate (n : Nat) : Bool := 0xD800 ≤ n && n ≤ 0xDFFF

/-- The code points of a text. -/
def points (t : Text) : List Nat := t.map Char.toNat

/-- The text that code points spell, if each of them has a character. -/
def ofPoints? (codes : List Nat) : Option Text :=
  if codes.any isSurrogate then none else some (codes.map Char.ofNat)

/-- Dictionary order of code points, a proper beginning coming first. -/
def orderPoints : List Nat → List Nat → Ordering
  | [], [] => .eq
  | [], _ :: _ => .lt
  | _ :: _, [] => .gt
  | x :: xs, y :: ys => (compare x y).then (orderPoints xs ys)

/-- Dictionary order by code point, a proper beginning coming first. -/
def order : Text → Text → Ordering
  | [], [] => .eq
  | [], _ :: _ => .lt
  | _ :: _, [] => .gt
  | x :: xs, y :: ys => (compare x.toNat y.toNat).then (order xs ys)

end Text
end Stencil
