import Stencil.Source.ArgumentPattern
import Stencil.Source.Segment

/-!
# Reading a tag

A tag is read in the family whose opener it begins with. In a family without names, every tag is
anonymous and all that stands between the delimiters is its text. In a family with names, the text
between the delimiters must begin with one of them, followed by whitespace or nothing; of several
names that fit, the longest is meant. A slash before the name makes a closing tag. A tag that
begins with no name is no named tag, and can still be read as an anonymous one.
-/

namespace Stencil

/-- A tag that has been read. -/
inductive Tag where
  /-- A tag without name, with all that stands between its delimiters. -/
  | anonymous (family : Value) (raw : Text) (arguments : Arguments)
  /-- An opening tag, with what follows its name. -/
  | opening (name : Text) (family : Value) (isolated verbatim : Bool) (raw : Text)
      (arguments : Arguments)
  | closing (name : Text) (family : Value) (isolated verbatim : Bool)

namespace Tag

/-- Why a tag cannot be read; all but the last three are defects of the grammar. -/
inductive Fault where
  /-- A name of the family is not a text. -/
  | untypedName
  /-- The argument pattern is not a text. -/
  | untypedPattern
  /-- The segment names a family by what can be no key. -/
  | unusableFamily
  /-- The segment names a family that does not exist. -/
  | unknownFamily
  /-- No family opens anywhere in the segment. -/
  | noFamily
  deriving DecidableEq, Repr

/-- The arguments of a text under the pattern of a declaration. A pattern that counts as false is
no pattern. A pattern with a surrogate in it is followed by no text. -/
def extract (t : Text) (pattern : Value) : Except Fault Arguments :=
  if !pattern.truthy then .ok []
  else match pattern with
    | .text p => .ok ((ArgumentPattern.ofText p).extract t)
    | .points _ => .ok []
    | _ => .error .untypedPattern

/-- How many characters of a tag stand before its closer. In a tag shorter than its closer the
count goes on from the end. -/
def beforeCloser (raw closer : Text) : Nat :=
  if closer.length ≤ raw.length then raw.length - closer.length
  else 2 * raw.length - closer.length

/-- What stands between the delimiters. -/
def inner (family : Family) (raw : Text) : Text :=
  (raw.take (beforeCloser raw family.closer)).drop family.opener.length

/-- Whether a text begins with a name that ends there. -/
def fits (t name : Text) : Bool :=
  name.isPrefixOf t &&
    match t.drop name.length with
    | c :: _ => Text.isBlank c
    | [] => true

/-- The names of declarations, if all are texts. A name with a surrogate in it occurs in no tag. -/
def names? : List TagSpec → Option (List (Text × TagSpec))
  | [] => some []
  | spec :: rest =>
    match spec.name, names? rest with
    | .text name, some more => some ((name, spec) :: more)
    | .points _, some more => some more
    | _, _ => none

/-- The longest of the names that a text begins with. -/
def longest? (t : Text) (names : List (Text × TagSpec)) : Option (Text × TagSpec) :=
  (names.filter fun n => fits t n.1).foldl
    (fun best n =>
      match best with
      | some b => if b.1.length < n.1.length then some n else some b
      | none => some n) none

/-- The text of a closing tag after its slash. -/
def afterSlash? : Text → Option Text
  | '/' :: rest => some rest
  | _ => none

/-- Reads a text between delimiters as an opening tag. -/
def readOpening (family : Family) (names : List (Text × TagSpec)) (t : Text) :
    Except Fault (Option Tag) :=
  match longest? t names with
  | none => .ok none
  | some (name, spec) =>
    let rest := Text.trimStart (t.drop name.length)
    let pattern := match spec.arguments with
      | .null => family.arguments
      | p => p
    (extract rest pattern).map fun arguments =>
      some (.opening name family.key spec.isolated spec.verbatim rest arguments)

/-- Reads a text between delimiters as a tag with one of the names of a family. -/
def readNamed (family : Family) (names : List (Text × TagSpec)) (t : Text) :
    Except Fault (Option Tag) :=
  match (afterSlash? t).bind (longest? · names) with
  | some (name, spec) => .ok (some (.closing name family.key spec.isolated spec.verbatim))
  | none => readOpening family names t

/-- Reads a tag as an anonymous tag of a family. -/
def readAnonymousIn (family : Family) (raw : Text) : Except Fault Tag :=
  let t := inner family raw
  (extract t family.arguments).map fun arguments => .anonymous family.key t arguments

/-- Reads a tag; `none` if it begins with no name of its family. -/
def read (families : List Family) (raw : Text) : Except Fault (Option Tag) :=
  match Family.next? families raw with
  | some (0, family) =>
    if family.hasNames then
      match names? family.tags with
      | none => .error .untypedName
      | some names => readNamed family names (Text.trim (inner family raw))
    else (readAnonymousIn family raw).map some
  | _ => .ok none

/-- Reads a tag as an anonymous one, of the family that it was cut out for, or else of the first
family that opens in it. -/
def readAnonymous (families : List Family) (family : Option Value) (raw : Text) :
    Except Fault Tag :=
  match family.filter Value.truthy with
  | some key =>
    if !key.isKey then .error .unusableFamily
    else match Family.withKey? families key with
      | some f => readAnonymousIn f raw
      | none => .error .unknownFamily
  | none =>
    match Family.next? families raw with
    | some (_, f) => readAnonymousIn f raw
    | none => .error .noFamily

end Tag
end Stencil
