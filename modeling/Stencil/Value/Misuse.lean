import Stencil.Text.Basic

/-!
# Uses that a type does not allow

Some operations are for certain types only: to look for a name in data, to go through the items of a
value, to make a value a key. A `Misuse` says which operation met which type.
-/

namespace Stencil

/-- A use of a value that its type does not allow. -/
inductive Misuse where
  /-- The value has been searched for a name, and has it, but has no items under names. -/
  | namedItem (typeName : String) (name : Text)
  /-- Bytes have been searched for a name. -/
  | nameInBytes
  /-- The value cannot be searched. -/
  | notSearchable (typeName : String)
  /-- The value has no items to go through. -/
  | notIterable (typeName : String)
  /-- The value can be no key. -/
  | noKey (typeName : String)
  /-- Two values have no order. -/
  | unordered (left right : String)
  deriving DecidableEq, Repr

/-- The wording of a misuse. -/
def Misuse.message : Misuse → String
  | .namedItem typeName _ =>
    if typeName = "str" then "string indices must be integers, not 'str'"
    else if typeName = "generator" then "'generator' object is not subscriptable"
    else s!"{typeName} indices must be integers or slices, not str"
  | .nameInBytes => "a bytes-like object is required, not 'str'"
  | .notSearchable typeName => s!"argument of type '{typeName}' is not iterable"
  | .notIterable typeName => s!"'{typeName}' object is not iterable"
  | .noKey typeName => s!"unhashable type: '{typeName}'"
  | .unordered left right =>
    s!"'<' not supported between instances of '{left}' and '{right}'"

end Stencil
