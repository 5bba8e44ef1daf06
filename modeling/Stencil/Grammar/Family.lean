import Stencil.Value.Basic

/-!
# Families of tags

A **family** is a pair of delimiters, an opener and a closer, neither of them empty. The tags of a
family are either all anonymous, their whole inside being an argument, or may carry one of the
declared names. A family says which handler deals with its anonymous tags, and each name which one
deals with it.

Keys, names, handler names and argument patterns come from configuration files and are kept as the
values that they were, text or not. What has to be text is checked where it is used.
-/

namespace Stencil

/-- The declaration of a named tag. -/
structure TagSpec where
  name : Value
  /-- The name of the handler in the library. -/
  handler : Value
  /-- Whitespace between the preceding tag and this one is dropped. -/
  isolated : Bool
  /-- The pattern of the arguments, in place of the one of the family. -/
  arguments : Value
  /-- What stands up to the closing tag is plain text. -/
  verbatim : Bool

/-- A pair of delimiters with the tags written between them. -/
structure Family where
  key : Value
  opener : Text
  closer : Text
  /-- The declared names; a family without any has anonymous tags only. -/
  tags : List TagSpec
  /-- The pattern of the arguments. -/
  arguments : Value
  /-- The name of the handler of anonymous tags. -/
  handler : Value
  /-- The family of higher priority wins where two openers stand at one place. -/
  priority : Int
  opener_ne_nil : opener ≠ []
  closer_ne_nil : closer ≠ []

namespace Family

/-- The declaration of a name; the absent value is no name. -/
def tag? (family : Family) (name : Value) : Option TagSpec :=
  match name with
  | .null => none
  | name => family.tags.find? fun spec => Value.sameKey name spec.name

/-- Whether any name is declared. -/
def hasNames (family : Family) : Bool := !family.tags.isEmpty

/-- The family with a key, of several. -/
def withKey? (families : List Family) (key : Value) : Option Family :=
  families.find? fun f => Value.sameKey key f.key

end Family
end Stencil
