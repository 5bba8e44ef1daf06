import Stencil.Value.Basic

/-!
# Comparing values

Numbers compare by what they denote, exactly: a truth value is zero or one, and an integer meets a
floating-point number without being rounded. Texts and bytes compare place by place; so do lists
with lists and tuples with tuples, the first place that differs deciding. Maps are equal when they
hold equal values under the same keys, in whatever order. Dates compare with dates and moments with
moments. Values of other pairs of types are unequal, and asking for their order is a fault of the
question.

Inside a container, an item counts as the same when it is the same occurrence (`same`); this
matters for not-a-number, which is never equal to itself when compared as a number, and for lists
and maps that hold themselves. Two different ones of these may never come to a place that differs;
so a comparison goes down only so many levels.
-/

namespace Stencil

/-- The six comparisons that an expression can make. -/
inductive Comparison where
  | equal
  | unequal
  | less
  | lessOrEqual
  | greater
  | greaterOrEqual
  deriving DecidableEq, Repr

namespace Comparison

/-- How a comparison is written. -/
def sign : Comparison → Text
  | .equal => ['=', '=']
  | .unequal => ['!', '=']
  | .less => ['<']
  | .lessOrEqual => ['<', '=']
  | .greater => ['>']
  | .greaterOrEqual => ['>', '=']

/-- All comparisons, those written with two characters first. -/
def all : List Comparison := [.equal, .unequal, .lessOrEqual, .greaterOrEqual, .less, .greater]

/-- The comparison that a text writes. -/
def ofSign? (t : Text) : Option Comparison := all.find? fun c => c.sign == t

/-- Whether the comparison accepts an order of its two sides. -/
def accepts : Comparison → Ordering → Bool
  | .equal, o => o == .eq
  | .unequal, o => o != .eq
  | .less, o => o == .lt
  | .lessOrEqual, o => o != .gt
  | .greater, o => o == .gt
  | .greaterOrEqual, o => o != .lt

end Comparison

namespace Value

/-- The two kinds of number. -/
inductive Numeric where
  | whole (n : Int)
  | floating (x : Binary64)
  deriving DecidableEq, Repr

/-- The number that a value is. -/
def numeric? : Value → Option Numeric
  | .bool b => some (.whole (if b then 1 else 0))
  | .int n => some (.whole n)
  | .float x => some (.floating x)
  | _ => none

/-- How two numbers compare; `none` if either is not a number. -/
def Numeric.compare? : Numeric → Numeric → Option Ordering
  | .whole a, .whole b => some (compare a b)
  | .floating x, .whole b => x.compareWith (b, 1)
  | .whole a, .floating y => (y.compareWith (a, 1)).map Ordering.swap
  | .floating x, .floating y => x.compare? y

/-- Whether two numbers are the same item: equal, or the same occurrence of not-a-number. -/
def Numeric.same (a b : Numeric) : Bool := a == b || a.compare? b == some .eq

/-- The order of two rows of bytes. -/
def orderBytes : List UInt8 → List UInt8 → Ordering
  | [], [] => .eq
  | [], _ :: _ => .lt
  | _ :: _, [] => .gt
  | x :: xs, y :: ys => (compare x.toNat y.toNat).then (orderBytes xs ys)

/-- Why two values cannot be compared. -/
inductive Incomparable where
  /-- The values have no order. -/
  | unordered
  /-- The values agree as deep as they are compared. -/
  | endless
  deriving DecidableEq, Repr

/-- Whether two values are one collection with an identity. -/
def isOne : Value → Value → Bool
  | .shared a _, .shared b _ => a == b
  | _, _ => false

/-- Whether two rows of one length have the same items. -/
def sameItems (same : Value → Value → Except Incomparable Bool) :
    List Value → List Value → Except Incomparable Bool
  | [], [] => .ok true
  | a :: as, b :: bs =>
    match same a b with
    | .ok true => sameItems same as bs
    | answer => answer
  | _, _ => .ok false

/-- Whether every entry has its value under its key among other entries. -/
def sameEntries (same : Value → Value → Except Incomparable Bool) :
    List (Value × Value) → List (Value × Value) → Except Incomparable Bool
  | [], _ => .ok true
  | (k, v) :: rest, fs =>
    match lookup k fs with
    | none => .ok false
    | some w =>
      match same v w with
      | .ok true => sameEntries same rest fs
      | answer => answer

/-- Whether two items of containers are equal, or the same occurrence, down to a number of
levels. -/
def same : Nat → Value → Value → Except Incomparable Bool
  | 0, _, _ => .error .endless
  | levels + 1, a, b =>
    if isOne a b then .ok true
    else match a.exposed, b.exposed with
      | .null, .null => .ok true
      | .text a, .text b => .ok (a == b)
      | .points a, .points b => .ok (a == b)
      | .bytes a, .bytes b => .ok (a == b)
      | .date a, .date b => .ok (a == b)
      | .moment a, .moment b => .ok (a.same b)
      | .list as, .list bs =>
        if as.length == bs.length then sameItems (same levels) as bs else .ok false
      | .tuple as, .tuple bs =>
        if as.length == bs.length then sameItems (same levels) as bs else .ok false
      | .map es, .map fs =>
        if es.length == fs.length then sameEntries (same levels) es fs else .ok false
      | .stream a _, .stream b _ => .ok (a == b)
      | .object a _, .object b _ => .ok (a == b)
      | a, b =>
        match numeric? a, numeric? b with
        | some x, some y => .ok (x.same y)
        | _, _ => .ok false

/-- Whether two values are equal, down to a number of levels. Two numbers are compared as numbers,
so that not-a-number equals nothing. -/
def equal (levels : Nat) (a b : Value) : Except Incomparable Bool :=
  match numeric? a, numeric? b with
  | some x, some y => .ok (x.compare? y == some .eq)
  | _, _ => same levels a b

/-- An order comparison of two rows: the first items that differ decide, then the lengths. -/
def orderedItems (c : Comparison) (same ordered : Value → Value → Except Incomparable Bool) :
    List Value → List Value → Except Incomparable Bool
  | [], [] => .ok (c.accepts .eq)
  | [], _ :: _ => .ok (c.accepts .lt)
  | _ :: _, [] => .ok (c.accepts .gt)
  | a :: as, b :: bs =>
    match same a b with
    | .error fault => .error fault
    | .ok true => orderedItems c same ordered as bs
    | .ok false => ordered a b

/-- Whether an order comparison holds, down to a number of levels. -/
def ordered (c : Comparison) : Nat → Value → Value → Except Incomparable Bool
  | 0, _, _ => .error .endless
  | levels + 1, a, b =>
    match a.exposed, b.exposed with
    | .text a, .text b => .ok (c.accepts (Text.order a b))
    | .text a, .points b => .ok (c.accepts (Text.orderPoints (Text.points a) b))
    | .points a, .text b => .ok (c.accepts (Text.orderPoints a (Text.points b)))
    | .points a, .points b => .ok (c.accepts (Text.orderPoints a b))
    | .bytes a, .bytes b => .ok (c.accepts (orderBytes a b))
    | .date a, .date b => .ok (c.accepts (a.order b))
    | .moment a, .moment b =>
      match a.order? b with
      | some order => .ok (c.accepts order)
      | none => .error .unordered
    | .list as, .list bs => orderedItems c (same levels) (ordered c levels) as bs
    | .tuple as, .tuple bs => orderedItems c (same levels) (ordered c levels) as bs
    | a, b =>
      match numeric? a, numeric? b with
      | some x, some y => .ok ((x.compare? y).any c.accepts)
      | _, _ => .error .unordered

/-- Whether a comparison of two values holds, down to a number of levels. -/
def holds (levels : Nat) : Comparison → Value → Value → Except Incomparable Bool
  | .equal, a, b => equal levels a b
  | .unequal, a, b => (equal levels a b).map (!·)
  | c, a, b => ordered c levels a b

end Value
end Stencil
