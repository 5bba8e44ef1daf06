import Stencil.Grammar.Family
import Stencil.Source.Position

/-!
# Segments of a template

The text of a template is cut into segments: tags, each from the opener of a family to the first
closer of that family after it, and the stretches of text between them. The next tag is the one
whose opener comes first; where several openers stand at one place, the first family of the given
order has it. That place can be found in two ways, which come to the same: by asking at each place
which family opens there, as cutting does, or by asking for each family where it opens. Nothing is
lost: the segments put together are the text.

Cutting fails only where a tag has no closer.
-/

namespace Stencil

/-- What a segment is. -/
inductive Segment.Kind where
  | text
  /-- A tag, with the key of the family that it was cut out for, if any. -/
  | tag (family : Option Value)

/-- A piece of a template. -/
structure Segment where
  kind : Segment.Kind
  /-- The characters of the piece, delimiters included. -/
  raw : Text
  position : Position

/-- An opener without a closer. -/
structure Unterminated where
  opener : Text
  closer : Text
  position : Position
  deriving DecidableEq, Repr

namespace Family

/-- The first family of a list whose opener a text begins with. -/
def opening? (families : List Family) (t : Text) : Option Family :=
  families.find? fun f => f.opener.isPrefixOf t

/-- The first place of a text at which a family opens, `n` characters having been passed. -/
def nextFrom? (families : List Family) (n : Nat) : Text → Option (Nat × Family)
  | [] => none
  | c :: rest =>
    match opening? families (c :: rest) with
    | some f => some (n, f)
    | none => nextFrom? families (n + 1) rest

/-- The first place of a text at which a family opens. -/
def next? (families : List Family) (t : Text) : Option (Nat × Family) := nextFrom? families 0 t

/-- What has been found so far, or the first place at or after a start at which one more family
opens, if that comes before it. -/
def nearer (t : Text) (start : Nat) (best : Option (Nat × Family)) (family : Family) :
    Option (Nat × Family) :=
  match Text.indexOf? family.opener (t.drop start), best with
  | none, best => best
  | some n, none => some (start + n, family)
  | some n, some (m, f) => if start + n < m then some (start + n, family) else some (m, f)

/-- The first place at or after a start at which a family opens, by looking for the families one
after the other. -/
def nearest? (families : List Family) (t : Text) (start : Nat) : Option (Nat × Family) :=
  families.foldl (nearer t start) none

/-- The first place at or after a start at which a family opens. A negative start counts from the
end of the text. -/
def nextAfter? (families : List Family) (t : Text) (start : Int) : Option (Nat × Family) :=
  nearest? families t (if start < 0 then (t.length + start).toNat else start.toNat)

end Family

namespace Segment

/-- Whether a segment is a tag. -/
def isTag (segment : Segment) : Bool :=
  match segment.kind with
  | .text => false
  | .tag _ => true

/-- A stretch of text, if there is any. -/
def ofText (position : Position) (t : Text) : List Segment :=
  if t.isEmpty then [] else [⟨.text, t, position⟩]

/-- Cuts the rest of a template, which begins at `position`, into segments. -/
def cutFrom (families : List Family) (position : Position) :
    Text → Except Unterminated (List Segment)
  | [] => .ok []
  | c :: rest =>
    let t := c :: rest
    match Family.next? families t with
    | none => .ok (ofText position t)
    | some (n, family) =>
      let text := t.take n
      let opened := position.advance text
      match Text.indexOf? family.closer (t.drop (n + family.opener.length)) with
      | none => .error ⟨family.opener, family.closer, opened⟩
      | some m =>
        let length := family.opener.length + m + family.closer.length
        let raw := (t.drop n).take length
        (cutFrom families (opened.advance raw) (rest.drop (n + length - 1))).map fun more =>
          ofText position text ++ ⟨.tag (some family.key), raw, opened⟩ :: more
  termination_by t => t.length
  decreasing_by simp only [List.length_cons, List.length_drop]; omega

/-- Cuts a template into segments; `families` are in the order in which they are preferred. -/
def cut (families : List Family) (template : Text) : Except Unterminated (List Segment) :=
  cutFrom families .start template

/-- The text that segments were cut from. -/
def joined (segments : List Segment) : Text := segments.flatMap Segment.raw

end Segment

/-- The wording of a missing closer, without its position. -/
def Unterminated.message (fault : Unterminated) : String :=
  let opener := String.ofList fault.opener
  let closer := String.ofList fault.closer
  s!"Unterminated '{opener}' tag (expected '{closer}')"

end Stencil
