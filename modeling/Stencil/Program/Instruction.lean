import Stencil.Program.Routine
import Stencil.Source.Position

/-!
# Instructions

A compiled template is a row of instructions, a **fragment**. A conditional is not one instruction
but a chain of neighbours: a branch, further branches that are tried if none before them was
taken, and perhaps a last one that needs no condition.

Joining fragments melts neighbouring literals into one and leaves out empty ones, so that a
fragment that has been joined never holds two literals in a row. A member of a chain that does not
follow the chain is found after joining.
-/

namespace Stencil

/-- What a loop may go through. -/
inductive LoopMode where
  /-- Maps, sequences and streams. -/
  | each
  /-- Sequences only, by index. -/
  | index
  deriving DecidableEq, Repr

/-- An instruction. -/
inductive Instruction where
  /-- Adds a text. -/
  | literal (t : Text)
  /-- Adds the value of an expression. -/
  | expression (e : Expression) (source : Text) (position : Option Position)
  /-- Starts a chain: runs the body if the condition holds. -/
  | branch (condition : Expression) (body : List Instruction) (source : Text)
      (position : Option Position)
  /-- Goes on with a chain of which no member has been taken. -/
  | elseBranch (condition : Expression) (body : List Instruction) (source : Text)
      (position : Option Position)
  /-- Ends a chain: runs the body if no member has been taken. -/
  | otherwise (body : List Instruction) (position : Option Position)
  /-- Runs the body for every item of a collection, with the item and its index bound to names. -/
  | loop (target : Text) (collection : Expression) (body : List Instruction) (mode : LoopMode)
      (source : Text) (position : Option Position)
  /-- Runs a routine, which may fill the body. -/
  | call (routine : CallContext → Routine) (body : List Instruction) (arguments : Arguments)
      (position : Option Position)
  /-- An instruction that no run knows. -/
  | unknown

/-- A row of instructions. -/
abbrev Fragment := List Instruction

namespace Fragment

/-- The fragment without empty literals and with neighbouring literals made one. -/
def merge : Fragment → Fragment
  | [] => []
  | .literal t :: rest =>
    match merge rest with
    | .literal u :: more => .literal (t ++ u) :: more
    | more => if t.isEmpty then more else .literal t :: more
  | i :: rest => i :: merge rest

/-- Fragments put one after the other. -/
def join (fragments : List Fragment) : Fragment := merge fragments.flatten

/-- The members of a chain that need a predecessor. -/
inductive Successor where
  | elseBranch
  | otherwise
  deriving DecidableEq, Repr

/-- A member of a chain without its predecessor. -/
structure BrokenChain where
  member : Successor
  position : Option Position
  deriving DecidableEq, Repr

/-- Whether an instruction can be followed by a further member of its chain. -/
def continues : Option Instruction → Bool
  | some (.branch _ _ _ _) => true
  | some (.elseBranch _ _ _ _) => true
  | _ => false

/-- The first member of a chain that does not follow its chain; `previous` is the instruction
before the fragment. -/
def brokenAfter? (previous : Option Instruction) : Fragment → Option BrokenChain
  | [] => none
  | i :: rest =>
    match i with
    | .elseBranch _ _ _ position =>
      if continues previous then brokenAfter? (some i) rest else some ⟨.elseBranch, position⟩
    | .otherwise _ position =>
      if continues previous then brokenAfter? (some i) rest else some ⟨.otherwise, position⟩
    | _ => brokenAfter? (some i) rest

/-- The first member of a chain that does not follow its chain. -/
def broken? (fragment : Fragment) : Option BrokenChain := brokenAfter? none fragment

/-- Fragments put one after the other, unless that breaks a chain. -/
def joinChecked (fragments : List Fragment) : Except BrokenChain Fragment :=
  match broken? (join fragments) with
  | some fault => .error fault
  | none => .ok (join fragments)

/-- The wording of a broken chain, without its position. -/
def BrokenChain.message (fault : BrokenChain) : String :=
  let name := match fault.member with
    | .elseBranch => "elseif"
    | .otherwise => "else"
  s!"'{name}' must directly follow 'if' or 'elseif'"

end Fragment
end Stencil
