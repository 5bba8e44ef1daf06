import Stencil.Text.Utf8

/-!
# Files

What stands at a path is given by a `FileView`: the bytes of a file, or why there is none. A path is
normalised by dropping empty and single-dot components. It may have less than 4096 bytes, each
component at most 255, and no null character.

`Files` is a working directory given as a whole: the path of each file in it, with its bytes. To
find a file there, the components of its path are followed from the top; a double dot goes back, and
what is passed on the way must be a directory.
-/

namespace Stencil

/-- Why there is no file at a path. -/
inductive Absence where
  /-- Nothing is there. -/
  | notFound
  /-- A directory is there. -/
  | isDirectory
  /-- A file stands on the way. -/
  | notDirectory
  /-- The path, or a component of it where directories lead, is longer than any path. -/
  | tooLong
  /-- The path has a null character. -/
  | nullCharacter
  deriving DecidableEq, Repr

/-- The bytes of the file at a path, or why there is none. -/
abbrev FileView := Text → Except Absence (List UInt8)

/-- The files of a directory by path. -/
abbrev Files := List (Text × List UInt8)

namespace Path

/-- The components of a path that mean something. -/
def components (path : Text) : List Text :=
  (Text.fields '/' path).filter fun c => !c.isEmpty && c != ['.']

/-- The slashes that make a path absolute. -/
def root (path : Text) : Text :=
  match path with
  | '/' :: '/' :: '/' :: _ => ['/']
  | '/' :: '/' :: _ => ['/', '/']
  | '/' :: _ => ['/']
  | _ => []

/-- The path as messages show it. -/
def normalise (path : Text) : Text :=
  let t := root path ++ Text.join ['/'] (components path)
  if t.isEmpty then ['.'] else t

/-- The length of a text in bytes. -/
def byteLength (t : Text) : Nat := (t.map Char.utf8Size).foldl (· + ·) 0

/-- Whether a component is too long to be a name. -/
def isLongName (c : Text) : Bool := byteLength c > 255

/-- Whether a path is too long as a whole. -/
def isLong (path : Text) : Bool := byteLength (normalise path) ≥ 4096

end Path

namespace Files

/-- The files by the components of their paths. -/
def byComponents (files : Files) : List (List Text × List UInt8) :=
  files.map fun f => (Path.components f.1, f.2)

/-- Whether components lead to a directory. -/
def isDirectory (files : Files) (place : List Text) : Bool :=
  place.isEmpty ||
    files.byComponents.any fun f => place.isPrefixOf f.1 && place.length < f.1.length

/-- Where the components of a path lead from a place, as far as directories go. -/
def locate (files : Files) (place : List Text) : List Text → Except Absence (List Text)
  | [] => .ok place
  | c :: rest =>
    if files.isDirectory place then
      if c = ['.', '.'] then
        if place.isEmpty then .error .notFound else locate files place.dropLast rest
      else if Path.isLongName c then .error .tooLong
      else locate files (place ++ [c]) rest
    else if files.byComponents.any fun f => f.1 == place then .error .notDirectory
    else .error .notFound

/-- The bytes of the file that a path leads to; a path from elsewhere leads to none. -/
def find (files : Files) (path : Text) : Except Absence (List UInt8) :=
  if path.contains (Char.ofNat 0) then .error .nullCharacter
  else if Path.isLong path then .error .tooLong
  else if !(Path.root path).isEmpty then
    .error (if (Path.components path).head?.any Path.isLongName then .tooLong else .notFound)
  else match files.locate [] (Path.components path) with
    | .error absence => .error absence
    | .ok place =>
      match files.byComponents.reverse.find? fun f => f.1 == place with
      | some f => .ok f.2
      | none => .error (if files.isDirectory place then .isDirectory else .notFound)

/-- The files as they are seen from within the directory. -/
def view (files : Files) : FileView := files.find

/-- The text that bytes spell, with line ends normalised. -/
def decode (bytes : List UInt8) : Except Utf8.Fault Text :=
  (Utf8.decode bytes).map Text.normaliseLineEnds

end Files
end Stencil
