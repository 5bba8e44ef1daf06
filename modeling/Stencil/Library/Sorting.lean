/-!
# Sorting by runs

Values that are nearly in order are sorted by what order they have: the row is cut into runs, short
runs are filled up by insertion, and neighbouring runs are merged, those first whose border lies
deepest in a balanced division of the row. In a merge, a run that is ahead for long enough is
searched in growing steps instead of value by value.

Comparing two values may fail, and the first comparison that fails ends the sorting. So it matters
which values are compared, and in which order; this is fixed here.
-/

namespace Stencil
namespace Sorting

variable {α ε : Type}

/-- Whether a value comes before another one, if that can be said. -/
abbrev Less (α ε : Type) := α → α → Except ε Bool

/-! ## Runs -/

/-- The values that go on a run after its last one, and the values after them. In a descending run
each value comes before the last, in any other run none does. -/
def run (less : Less α ε) (descending : Bool) (last : α) : List α → Except ε (List α × List α)
  | [] => .ok ([], [])
  | v :: rest =>
    match less v last with
    | .error fault => .error fault
    | .ok answer =>
      if answer = descending then
        (run less descending v rest).map fun (more, rest) => (v :: more, rest)
      else .ok ([], v :: rest)

/-- The run that a row begins with, in ascending order, and the values after it. -/
def firstRun (less : Less α ε) : List α → Except ε (List α × List α)
  | a :: b :: rest =>
    match less b a with
    | .error fault => .error fault
    | .ok descending =>
      (run less descending b rest).map fun (more, rest) =>
        let whole := a :: b :: more
        (if descending then whole.reverse else whole, rest)
  | values => .ok (values, [])

/-- Where a value belongs among sorted ones, between two places, after those equal to it. -/
def placeOf (less : Less α ε) (v : α) (sorted : Array α) (low high : Nat) : Except ε Nat :=
  if _h : low < high then
    let middle := low + (high - low) / 2
    match less v (sorted.getD middle v) with
    | .error fault => .error fault
    | .ok true => placeOf less v sorted low middle
    | .ok false => placeOf less v sorted (middle + 1) high
  else .ok low
  termination_by high - low

/-- Puts values among sorted ones, one after the other. -/
def insertAll (less : Less α ε) (sorted : Array α) : List α → Except ε (Array α)
  | [] => .ok sorted
  | v :: rest =>
    match placeOf less v sorted 0 sorted.size with
    | .error fault => .error fault
    | .ok place =>
      insertAll less (sorted.take place ++ (#[v] ++ sorted.extract place sorted.size)) rest

/-- The least length of a run in a row of a length: the length halved until it is below 64, and one
more if anything got lost. Then the number of runs is a power of two or a little less. -/
def leastRun (lost : Bool) (length : Nat) : Nat :=
  if _h : length < 64 then (if lost then length + 1 else length)
  else leastRun (lost || length % 2 == 1) (length / 2)

/-- The run that a row begins with, filled up to a length, and the values after it. -/
def filledRun (less : Less α ε) (least : Nat) (row : List α) : Except ε (List α × List α) :=
  match firstRun less row with
  | .error fault => .error fault
  | .ok (whole, rest) =>
    let missing := least - whole.length
    (insertAll less whole.toArray (rest.take missing)).map fun filled =>
      (filled.toList, rest.drop missing)

/-! ## Searching in growing steps -/

/-- The values at growing distances, `distance` first, as long as a test holds: the last distance at
which it does, and the first at which it does not or which is `limit`. -/
def stride (test : Nat → Except ε Bool) (limit : Nat) : Nat → Nat → Nat → Except ε (Nat × Nat)
  | 0, last, distance => .ok (last, min distance limit)
  | steps + 1, last, distance =>
    if distance < limit then
      match test distance with
      | .error fault => .error fault
      | .ok true => stride test limit steps distance (2 * distance + 1)
      | .ok false => .ok (last, distance)
    else .ok (last, min distance limit)

/-- The first place between two at which a test does not hold. -/
def firstFailing (test : Nat → Except ε Bool) (low high : Nat) : Except ε Nat :=
  if _h : low < high then
    let middle := low + (high - low) / 2
    match test middle with
    | .error fault => .error fault
    | .ok true => firstFailing test (middle + 1) high
    | .ok false => firstFailing test low middle
  else .ok low
  termination_by high - low

/-- The first place in a sorted row of a length at which a test does not hold, searched for from the
place `hint` on to either side. -/
def search (test : Nat → Except ε Bool) (length hint : Nat) : Except ε Nat :=
  match test hint with
  | .error fault => .error fault
  | .ok true =>
    match stride (fun d => test (hint + d)) (length - hint) length 0 1 with
    | .error fault => .error fault
    | .ok (last, distance) => firstFailing test (hint + last + 1) (hint + distance)
  | .ok false =>
    match stride (fun d => (test (hint - d)).map (!·)) (hint + 1) length 0 1 with
    | .error fault => .error fault
    | .ok (last, distance) => firstFailing test (hint + 1 - distance) (hint - last)

/-- How many values of a row come before a value. -/
def countBefore (less : Less α ε) (v : α) (row : Array α) (hint : Nat) : Except ε Nat :=
  search (fun i => less (row.getD i v) v) row.size hint

/-- How many values of a row do not come after a value. -/
def countUpTo (less : Less α ε) (v : α) (row : Array α) (hint : Nat) : Except ε Nat :=
  search (fun i => (less v (row.getD i v)).map (!·)) row.size hint

/-! ## Merging two runs -/

/-- Which of two runs that are merged. -/
inductive Side where
  /-- The one that is not longer. -/
  | short
  | long
  deriving DecidableEq

/-- A merge that is under way, from the front of the runs or from their ends. What is left of the
runs stands with the next value first, what is merged with the latest first. -/
structure Merge (α : Type) where
  short : List α
  long : List α
  merged : List α

namespace Merge

/-- Whether the rest needs no comparison: of the short run there is the last value at most, which
belongs after all others, or there is nothing of the long one. -/
def isOver (m : Merge α) : Bool := m.long.isEmpty || m.short.length ≤ 1

/-- Takes so many values of one run. -/
def take (side : Side) (n : Nat) (m : Merge α) : Merge α :=
  match side with
  | .short => { m with short := m.short.drop n, merged := (m.short.take n).reverse ++ m.merged }
  | .long => { m with long := m.long.drop n, merged := (m.long.take n).reverse ++ m.merged }

/-- All values, where the rest needs no comparison. -/
def result (m : Merge α) : List α := m.merged.reverse ++ (m.long ++ m.short)

/-- How many values of one run come before the next one of the other. In a merge from the front the
short run stands before the long one, in a merge from the ends after it; equal values keep this
order. -/
def ahead (less : Less α ε) (fromFront : Bool) (side : Side) (m : Merge α) : Except ε Nat :=
  let (row, key) := match side with
    | .short => (m.short, m.long.head?)
    | .long => (m.long, m.short.head?)
  match key with
  | none => .ok 0
  | some v =>
    let isFirst := (side == .short) == fromFront
    let count := if isFirst then countUpTo less v else countBefore less v
    if fromFront then count row.toArray 0
    else (count row.reverse.toArray (row.length - 1)).map (row.length - ·)

/-- Whether the next value of the long run is to be taken before the next one of the short run. -/
def longFirst (less : Less α ε) (fromFront : Bool) (m : Merge α) : Except ε Bool :=
  match m.short, m.long with
  | s :: _, g :: _ => if fromFront then less g s else less s g
  | _, _ => .ok true

/-- Merges value by value, until one run has been ahead `least` times in a row. -/
def stepwise (less : Less α ε) (fromFront : Bool) (least : Nat) :
    Nat → Nat → Nat → Merge α → Except ε (Merge α)
  | 0, _, _, m => .ok m
  | steps + 1, shorts, longs, m =>
    match m.longFirst less fromFront with
    | .error fault => .error fault
    | .ok true =>
      let m := m.take .long 1
      if m.isOver || longs + 1 ≥ least then .ok m
      else stepwise less fromFront least steps 0 (longs + 1) m
    | .ok false =>
      let m := m.take .short 1
      if m.isOver || shorts + 1 ≥ least then .ok m
      else stepwise less fromFront least steps (shorts + 1) 0 m

/-- How often one run has to be ahead at first for being searched in growing steps; later, how many
values such a search has to find for being worth it. -/
def worthSearching : Nat := 7

/-- Merges by searches, as long as they find enough. The number `least` goes down with each pair of
searches and up in the end. -/
def bySearches (less : Less α ε) (fromFront : Bool) :
    Nat → Nat → Merge α → Except ε (Merge α × Nat)
  | 0, least, m => .ok (m, least)
  | steps + 1, least, m =>
    let least := if least > 1 then least - 1 else least
    let (side, other) := if fromFront then (Side.short, Side.long) else (.long, .short)
    match m.ahead less fromFront side with
    | .error fault => .error fault
    | .ok n =>
      let m := m.take side n
      if m.isOver then .ok (m, least)
      else
        let m := m.take other 1
        if m.isOver then .ok (m, least)
        else match m.ahead less fromFront other with
          | .error fault => .error fault
          | .ok k =>
            let m := m.take other k
            if m.isOver then .ok (m, least)
            else
              let m := m.take side 1
              if m.isOver then .ok (m, least)
              else if n ≥ worthSearching || k ≥ worthSearching then
                bySearches less fromFront steps least m
              else .ok (m, least + 1)

/-- Merges value by value and by searches in turn, until the rest needs no comparison. -/
def complete (less : Less α ε) (fromFront : Bool) :
    Nat → Nat → Merge α → Except ε (Merge α × Nat)
  | 0, least, m => .ok (m, least)
  | steps + 1, least, m =>
    if m.isOver then .ok (m, least)
    else match m.stepwise less fromFront least (steps + 1) 0 0 with
      | .error fault => .error fault
      | .ok m =>
        if m.isOver then .ok (m, least)
        else match m.bySearches less fromFront (steps + 1) (least + 1) with
          | .error fault => .error fault
          | .ok (m, least) => complete less fromFront steps least m

end Merge

/-- Two neighbouring runs as one. The values at the front of the first one and at the end of the
second one that are in place already are left there. The number `least` goes from one merge to the
next. -/
def mergeRuns (less : Less α ε) (least : Nat) (a b : List α) : Except ε (List α × Nat) :=
  match b.head? with
  | none => .ok (a, least)
  | some v =>
    match countUpTo less v a.toArray 0 with
    | .error fault => .error fault
    | .ok before =>
      let first := a.drop before
      match first.getLast? with
      | none => .ok (a ++ b, least)
      | some w =>
        match countBefore less w b.toArray (b.length - 1) with
        | .error fault => .error fault
        | .ok n =>
          let second := b.take n
          let fromFront := first.length ≤ n
          let start : Merge α := if fromFront then ⟨first, second, []⟩
            else ⟨second.reverse, first.reverse, []⟩
          if n = 0 then .ok (a ++ b, least)
          else ((start.take .long 1).complete less fromFront (a.length + b.length) least).map
            fun (m, least) =>
              let inner := if fromFront then m.result else m.result.reverse
              (a.take before ++ (inner ++ b.drop n), least)

/-! ## Merging all runs -/

/-- A run that waits to be merged, and how deep the border after it lies. -/
structure Waiting (α : Type) where
  run : List α
  depth : Nat

/-- How deep the border between two runs lies: at the first halving of the row, the first quarter,
and so on, that separates their middles `a / 2` and `b / 2`. -/
def borderDepth (length : Nat) : Nat → Nat → Nat → Nat
  | 0, _, _ => 0
  | steps + 1, a, b =>
    if a ≥ length then borderDepth length steps (2 * (a - length)) (2 * (b - length)) + 1
    else if b ≥ length then 1
    else borderDepth length steps (2 * a) (2 * b) + 1

/-- Merges the waiting runs, the last one first, whose borders lie deeper than the next one. -/
def mergeDeeper (less : Less α ε) (depth : Nat) :
    Nat → Nat → List (Waiting α) → Except ε (List (Waiting α) × Nat)
  | steps + 1, least, last :: before :: rest =>
    if before.depth > depth then
      match mergeRuns less least before.run last.run with
      | .error fault => .error fault
      | .ok (merged, least) =>
        mergeDeeper less depth steps least (⟨merged, before.depth⟩ :: rest)
    else .ok (⟨last.run, depth⟩ :: before :: rest, least)
  | _, least, last :: rest => .ok (⟨last.run, depth⟩ :: rest, least)
  | _, least, [] => .ok ([], least)

/-- Merges all waiting runs, the last one first; of the last run and the one before the last but
one, the shorter one is merged with the run between them. -/
def mergeAll (less : Less α ε) : Nat → Nat → List (Waiting α) → Except ε (List α)
  | _, _, [] => .ok []
  | _, _, [only] => .ok only.run
  | 0, _, last :: _ => .ok last.run
  | steps + 1, least, [last, before] =>
    match mergeRuns less least before.run last.run with
    | .error fault => .error fault
    | .ok (merged, least) => mergeAll less steps least [⟨merged, 0⟩]
  | steps + 1, least, last :: middle :: before :: rest =>
    if before.run.length < last.run.length then
      match mergeRuns less least before.run middle.run with
      | .error fault => .error fault
      | .ok (merged, least) => mergeAll less steps least (last :: ⟨merged, 0⟩ :: rest)
    else
      match mergeRuns less least middle.run last.run with
      | .error fault => .error fault
      | .ok (merged, least) => mergeAll less steps least (⟨merged, 0⟩ :: before :: rest)

/-- Cuts a row into runs and merges them as far as their borders ask for it; then merges what is
waiting. -/
def sortFrom (less : Less α ε) (length minimum : Nat) :
    Nat → Nat → List (Waiting α) → List α → Except ε (List α)
  | steps + 1, least, waiting, v :: rest =>
    match filledRun less minimum (v :: rest) with
    | .error fault => .error fault
    | .ok (next, rest) =>
      let lastLength := (waiting.head?.map fun w => w.run.length).getD 0
      let start := ((waiting.drop 1).map fun w => w.run.length).foldl (· + ·) 0
      let a := 2 * start + lastLength
      let depth := borderDepth length (length + 2) a (a + lastLength + next.length)
      match mergeDeeper less depth waiting.length least waiting with
      | .error fault => .error fault
      | .ok (waiting, least) => sortFrom less length minimum steps least (⟨next, 0⟩ :: waiting) rest
  | _, least, waiting, _ => mergeAll less waiting.length least waiting

/-- The values in order, or the fault of the first comparison that fails. -/
def sort (less : Less α ε) (row : List α) : Except ε (List α) :=
  sortFrom less row.length (leastRun false row.length) row.length Merge.worthSearching [] row

end Sorting
end Stencil
